import Mathlib.Data.List.Basic
import Mathlib.Data.List.Infix
import Mathlib.Tactic.Common

/-!
# Windows of a list

The starts at which a pattern occurs in a list, and the Knuth-Morris-Pratt scan that finds them
in one pass. A fallback table holds the length of the longest proper border of every non-empty
prefix of the pattern.
-/

namespace Codex.Matching

variable {α : Type} [DecidableEq α]

/-- Among the prefixes of a pattern that are shorter than a bound, the one of the given length is
    the longest that ends a text. -/
structure Longest (pattern : List α) (bound : Nat) (text : List α) (length : Nat) : Prop where
  short : length < bound
  ends : pattern.take length <:+ text
  max : ∀ other, other < bound → pattern.take other <:+ text → other ≤ length

/-- The entries of a fallback table: a prefix without its first element is what a proper border
    can end. -/
def TableFor (pattern : List α) (fallback : List Nat) : Prop :=
  ∀ index length, fallback[index]? = some length →
    Longest pattern (index + 1) (pattern.take (index + 1)) length

variable {pattern text rest : List α} {length limit : Nat} {c : α} {fallback : List Nat}

omit [DecidableEq α] in
theorem suffix_snoc_iff :
    pattern.take (length + 1) <:+ text ++ [c] ∧ length < pattern.length ↔
      pattern.take length <:+ text ∧ pattern[length]? = some c := by
  constructor
  · rintro ⟨⟨front, same⟩, short⟩
    rw [List.take_add_one, List.getElem?_eq_getElem short, Option.toList_some,
      ← List.append_assoc] at same
    obtain ⟨front_eq, last⟩ := List.append_inj' same rfl
    refine ⟨⟨front, front_eq⟩, ?_⟩
    rw [List.getElem?_eq_getElem short, List.singleton_inj.mp last]
  · rintro ⟨⟨front, same⟩, at_⟩
    obtain ⟨short, element⟩ := List.getElem?_eq_some_iff.mp at_
    refine ⟨⟨front, ?_⟩, short⟩
    rw [List.take_add_one, at_, Option.toList_some, ← List.append_assoc, same]

/-- Fall back to shorter borders until the next element of the pattern is the given one, or no
    border is left. The fuel bounds the number of rounds; a length suffices for itself. -/
def retreat (pattern : List α) (fallback : List Nat) (c : α) : Nat → Nat → Nat
  | 0, length => length
  | fuel + 1, length =>
      if 0 < length ∧ pattern[length]? ≠ some c then
        retreat pattern fallback c fuel (fallback.getD (length - 1) 0)
      else length

/-- The length of the longest prefix of the pattern after one more element. -/
def advance (pattern : List α) (fallback : List Nat) (c : α) (length : Nat) : Nat :=
  let length := retreat pattern fallback c length length
  if pattern[length]? = some c then length + 1 else length

/-- A border that stays: no longer one goes on with the element. -/
theorem retreat_spec (table : TableFor pattern fallback) {fuel : Nat} (enough : length ≤ fuel)
    (known : length ≤ fallback.length) (ends : pattern.take length <:+ text)
    (max : ∀ other, other < pattern.length → pattern.take other <:+ text →
      pattern[other]? = some c → other ≤ length) :
    let kept := retreat pattern fallback c fuel length
    (pattern.take kept <:+ text) ∧ kept ≤ length ∧ (kept = 0 ∨ pattern[kept]? = some c) ∧
      ∀ other, other < pattern.length → pattern.take other <:+ text →
        pattern[other]? = some c → other ≤ kept := by
  induction fuel generalizing length with
  | zero =>
    obtain rfl : length = 0 := by omega
    exact ⟨ends, Nat.le_refl 0, .inl rfl, max⟩
  | succ fuel ih =>
    simp only [retreat]
    split
    next goesOn =>
      obtain ⟨positive, differs⟩ := goesOn
      have inside : length - 1 < fallback.length := by omega
      have entry := table (length - 1) _ (List.getElem?_eq_getElem inside)
      rw [Nat.sub_add_cancel positive] at entry
      rw [List.getD_eq_getElem?_getD, List.getElem?_eq_getElem inside, Option.getD_some]
      obtain ⟨kept, below, stop, maxKept⟩ := @ih fallback[length - 1]
        (by have := entry.short; omega) (by have := entry.short; omega) (entry.ends.trans ends) (by
          intro other inPattern otherEnds continues
          have least := max other inPattern otherEnds continues
          have ne : other ≠ length := by
            rintro rfl
            exact differs continues
          apply entry.max other (by omega)
          apply List.suffix_of_suffix_length_le otherEnds ends
          simp only [List.length_take]
          omega)
      exact ⟨kept, by have := entry.short; omega, stop, maxKept⟩
    next stops =>
      refine ⟨ends, Nat.le_refl _, ?_, max⟩
      by_cases positive : 0 < length
      · exact .inr (by simpa [positive] using stops)
      · exact .inl (by omega)

/-- One element moves the longest prefix that ends the text to the longest that ends the text
    with it. -/
theorem advance_longest (table : TableFor pattern fallback) (known : length ≤ fallback.length)
    (longest : Longest pattern pattern.length text length) :
    Longest pattern (pattern.length + 1) (text ++ [c]) (advance pattern fallback c length) := by
  obtain ⟨ends, below, stop, max⟩ := retreat_spec table (Nat.le_refl length) known longest.ends
    (c := c) (fun other short otherEnds _ => longest.max other short otherEnds)
  have short := longest.short
  unfold advance
  simp only
  generalize retreat pattern fallback c length length = kept at *
  have least : ∀ other, other < pattern.length + 1 → pattern.take other <:+ text ++ [c] →
      other = 0 ∨ ∃ before, other = before + 1 ∧ before ≤ kept ∧ pattern[before]? = some c := by
    intro other bounded otherEnds
    cases other with
    | zero => exact .inl rfl
    | succ before =>
      obtain ⟨beforeEnds, element⟩ := suffix_snoc_iff.mp ⟨otherEnds, by omega⟩
      exact .inr ⟨before, rfl, max before (by omega) beforeEnds element, element⟩
  split
  next element =>
    refine ⟨by omega, (suffix_snoc_iff.mpr ⟨ends, element⟩).1, ?_⟩
    intro other bounded otherEnds
    rcases least other bounded otherEnds with rfl | ⟨before, rfl, le, _⟩
    · omega
    · omega
  next differs =>
    obtain rfl : kept = 0 := stop.resolve_right differs
    refine ⟨by omega, by simp, ?_⟩
    intro other bounded otherEnds
    rcases least other bounded otherEnds with rfl | ⟨before, rfl, le, element⟩
    · omega
    · obtain rfl : before = 0 := by omega
      exact absurd element differs

/-- Extend the table by one entry for each remaining element of the pattern. -/
def extendFallback (pattern : List α) : List Nat → Nat → List α → List Nat
  | fallback, _, [] => fallback
  | fallback, length, c :: rest =>
      let length := advance pattern fallback c length
      extendFallback pattern (fallback ++ [length]) length rest

/-- The fallback table of a pattern: its first entry is zero. -/
def fallbackTable (pattern : List α) : List Nat :=
  match pattern with
  | [] => []
  | _ :: rest => extendFallback pattern [0] 0 rest

omit [DecidableEq α] in
/-- What a proper border of a prefix can end is the prefix without its first element. -/
theorem suffix_tail_iff {count other : Nat} (inside : count ≤ pattern.length) (positive : 0 < count)
    (bounded : other ≤ pattern.length) :
    pattern.take other <:+ (pattern.take count).tail ↔
      other < count ∧ pattern.take other <:+ pattern.take count := by
  have tailSuffix := List.tail_suffix (pattern.take count)
  have tailLength : (pattern.take count).tail.length = count - 1 := by
    rw [List.length_tail, List.length_take, Nat.min_eq_left inside]
  constructor
  · intro ends
    have le := ends.length_le
    rw [tailLength, List.length_take, Nat.min_eq_left bounded] at le
    exact ⟨by omega, ends.trans tailSuffix⟩
  · rintro ⟨shorter, ends⟩
    apply List.suffix_of_suffix_length_le ends tailSuffix
    rw [tailLength, List.length_take]
    omega

omit [DecidableEq α] in
theorem longest_tail_iff {count bound : Nat} (inside : count ≤ pattern.length)
    (positive : 0 < count) (wide : count ≤ bound) (bounded : bound ≤ pattern.length + 1) :
    Longest pattern bound (pattern.take count).tail length ↔
      Longest pattern count (pattern.take count) length := by
  constructor
  · rintro ⟨short, ends, max⟩
    obtain ⟨shorter, ends⟩ := (suffix_tail_iff inside positive (by omega)).mp ends
    refine ⟨shorter, ends, ?_⟩
    intro other otherShort otherEnds
    exact max other (by omega)
      ((suffix_tail_iff inside positive (by omega)).mpr ⟨otherShort, otherEnds⟩)
  · rintro ⟨short, ends, max⟩
    refine ⟨by omega, (suffix_tail_iff inside positive (by omega)).mpr ⟨short, ends⟩, ?_⟩
    intro other otherShort otherEnds
    obtain ⟨shorter, otherEnds⟩ := (suffix_tail_iff inside positive (by omega)).mp otherEnds
    exact max other shorter otherEnds

/-- The loop extends a correct table to the whole pattern. -/
theorem extendFallback_spec (table : TableFor pattern fallback) (positive : 0 < fallback.length)
    (fits : fallback.length ≤ pattern.length)
    (split : pattern.take fallback.length ++ rest = pattern)
    (longest : Longest pattern fallback.length (pattern.take fallback.length) length) :
    TableFor pattern (extendFallback pattern fallback length rest) ∧
      (extendFallback pattern fallback length rest).length = pattern.length := by
  have total := congrArg List.length split
  rw [List.length_append, List.length_take, Nat.min_eq_left fits] at total
  induction rest generalizing fallback length with
  | nil =>
    refine ⟨table, ?_⟩
    exact total
  | cons c rest ih =>
    rw [List.length_cons] at total
    have inside : fallback.length < pattern.length := by omega
    have element : pattern[fallback.length]? = some c := by
      have whole := congrArg (fun list => list[fallback.length]?) split
      rw [← whole, List.getElem?_append_right (by simp [Nat.le_of_lt inside])]
      simp [Nat.min_eq_left (Nat.le_of_lt inside)]
    have next : pattern.take (fallback.length + 1) = pattern.take fallback.length ++ [c] := by
      rw [List.take_add_one, element, Option.toList_some]
    have nonempty : pattern.take fallback.length ≠ [] := by
      intro none
      have zero := congrArg List.length none
      rw [List.length_take, List.length_nil] at zero
      omega
    have tailNext : (pattern.take (fallback.length + 1)).tail =
        (pattern.take fallback.length).tail ++ [c] := by
      rw [next, List.tail_append_of_ne_nil nonempty]
    have scanned := advance_longest (c := c) table (Nat.le_of_lt longest.short)
      ((longest_tail_iff (Nat.le_of_lt inside) positive (Nat.le_of_lt inside)
        (Nat.le_succ _)).mpr longest)
    rw [← tailNext, longest_tail_iff inside (Nat.succ_pos _) (Nat.le_succ_of_le inside)
      (Nat.le_refl _)] at scanned
    simp only [extendFallback]
    apply ih
    · intro index length entry
      by_cases old : index < fallback.length
      · rw [List.getElem?_append_left old] at entry
        exact table index length entry
      have last : index = fallback.length := by
        have bound := (List.getElem?_eq_some_iff.mp entry).1
        rw [List.length_append, List.length_singleton] at bound
        omega
      subst last
      rw [List.getElem?_concat_length, Option.some_inj] at entry
      rw [← entry]
      exact scanned
    · simp
    · rw [List.length_append, List.length_singleton]
      exact inside
    · rw [List.length_append, List.length_singleton, next, List.append_assoc]
      exact split
    · rw [List.length_append, List.length_singleton]
      exact scanned
    · rw [List.length_append, List.length_singleton]
      omega

theorem fallbackTable_spec (pattern : List α) :
    TableFor pattern (fallbackTable pattern) ∧
      (fallbackTable pattern).length = pattern.length := by
  unfold fallbackTable
  split
  · exact ⟨fun index length entry => by simp at entry, rfl⟩
  next first rest =>
    have zero : Longest (first :: rest) 1 ((first :: rest).take 1) 0 :=
      ⟨Nat.one_pos, List.nil_suffix, fun other short _ => by omega⟩
    apply extendFallback_spec
    · intro index length entry
      obtain ⟨inside, value⟩ := List.getElem?_eq_some_iff.mp entry
      obtain rfl : index = 0 := by simpa using inside
      obtain rfl : length = 0 := by simpa using value.symm
      exact zero
    · exact Nat.one_pos
    · exact Nat.succ_le_succ (Nat.zero_le _)
    · rfl
    · exact zero

/-- Collect the indices that match, in order, until as many as the limit were found. -/
def collect (matches_ : Nat → Bool) (limit : Nat) : List Nat → List Nat → List Nat
  | found, [] => found
  | found, index :: rest =>
      if matches_ index then
        let found := found ++ [index]
        if limit ≤ found.length then found else collect matches_ limit found rest
      else collect matches_ limit found rest

omit [DecidableEq α] in
/-- A limit that is reached leaves the rest out. -/
theorem take_of_full {found : List α} {last : α} (room : found.length < limit)
    (full : limit ≤ (found ++ [last]).length) :
    (found ++ last :: rest).take limit = found ++ [last] := by
  have length : (found ++ [last]).length = limit := by
    rw [List.length_append, List.length_singleton] at full ⊢
    omega
  rw [← List.singleton_append, ← List.append_assoc, List.take_left' length]

theorem collect_eq_take {matches_ : Nat → Bool} {found indices : List Nat}
    (room : found.length < limit) :
    collect matches_ limit found indices = (found ++ indices.filter matches_).take limit := by
  induction indices generalizing found with
  | nil => simp [collect, List.take_of_length_le (Nat.le_of_lt room)]
  | cons index rest ih =>
    unfold collect
    cases hit : matches_ index with
    | false => simp only [Bool.false_eq_true, if_false, List.filter_cons, hit, ih room]
    | true =>
      simp only [if_true, List.filter_cons, hit]
      split
      next full => exact (take_of_full room full).symm
      next more =>
        rw [ih (Nat.lt_of_not_le more), List.append_assoc, List.singleton_append]

/-- The starts of a pattern in a text whose elements are read one after the other. -/
def scan (pattern : List α) (fallback : List Nat) (limit : Nat) :
    List Nat → Nat → Nat → List α → List Nat
  | found, _, _, [] => found
  | found, matched, offset, c :: rest =>
      let matched := advance pattern fallback c matched
      if matched = pattern.length then
        let found := found ++ [offset + 1 - pattern.length]
        if limit ≤ found.length then found
        else scan pattern fallback limit found (fallback.getD (matched - 1) 0) (offset + 1) rest
      else scan pattern fallback limit found matched (offset + 1) rest

/-- A pattern occurs in a text at a start. -/
def occursAt (pattern text : List α) (start : Nat) : Bool :=
  (text.drop start).take pattern.length = pattern

omit [DecidableEq α] in
theorem ends_iff_occurs {stop : Nat} (inside : stop ≤ text.length) :
    pattern <:+ text.take stop ↔ pattern.length ≤ stop ∧
      (text.drop (stop - pattern.length)).take pattern.length = pattern := by
  rw [List.suffix_iff_eq_drop, List.length_take, Nat.min_eq_left inside, List.drop_take]
  constructor
  · intro same
    have le : pattern.length ≤ stop := by
      have length := congrArg List.length same
      rw [List.length_take, List.length_drop] at length
      omega
    rw [Nat.sub_sub_self le] at same
    exact ⟨le, same.symm⟩
  · rintro ⟨le, same⟩
    rw [Nat.sub_sub_self le]
    exact same.symm

/-- The scan finds every start, overlapping ones too, up to the limit. The text before the offset
    was read; its longest prefix that is not the whole pattern is the state. -/
theorem scan_eq_take {found : List Nat} {matched offset : Nat} (nonempty : pattern ≠ [])
    (room : found.length < limit) (split : text.drop offset = rest)
    (longest : Longest pattern pattern.length (text.take offset) matched) :
    scan pattern (fallbackTable pattern) limit found matched offset rest =
      (found ++ ((List.range' offset rest.length).filter fun last =>
        pattern.length ≤ last + 1 && occursAt pattern text (last + 1 - pattern.length)).map
          fun last => last + 1 - pattern.length).take limit := by
  obtain ⟨table, size⟩ := fallbackTable_spec pattern
  have positive : 0 < pattern.length := List.length_pos_iff.mpr nonempty
  induction rest generalizing found matched offset with
  | nil => simp [scan, List.take_of_length_le (Nat.le_of_lt room)]
  | cons c rest ih =>
    have inside : offset < text.length := by
      by_contra outside
      rw [List.drop_eq_nil_of_le (Nat.not_lt.mp outside)] at split
      cases split
    have dropped : text.drop (offset + 1) = rest := by
      rw [← List.tail_drop, split, List.tail_cons]
    have taken : text.take (offset + 1) = text.take offset ++ [c] := by
      have element : text[offset]? = some c := by
        rw [← List.head?_drop, split, List.head?_cons]
      rw [List.take_add_one, element, Option.toList_some]
    have next := advance_longest (c := c) table
      (Nat.le_of_lt (size ▸ longest.short)) longest
    rw [← taken] at next
    have whole : advance pattern (fallbackTable pattern) c matched = pattern.length ↔
        (pattern.length ≤ offset + 1 && occursAt pattern text (offset + 1 - pattern.length)) =
          true := by
      rw [Bool.and_eq_true, decide_eq_true_eq, occursAt, decide_eq_true_eq,
        ← ends_iff_occurs inside]
      constructor
      · intro full
        have ends := next.ends
        rwa [full, List.take_length] at ends
      · intro ends
        have least := next.max pattern.length (Nat.lt_succ_self _) (by rwa [List.take_length])
        have short := next.short
        omega
    rw [List.length_cons, List.range'_succ, List.filter_cons]
    unfold scan
    simp only
    split
    next full =>
      rw [if_pos (whole.mp full), List.map_cons]
      split
      next reached => exact (take_of_full room reached).symm
      next more =>
        have entry := table (pattern.length - 1) _
          (List.getElem?_eq_getElem (by rw [size]; omega))
        rw [Nat.sub_add_cancel positive, List.take_length] at entry
        have ends := next.ends
        rw [full, List.take_length] at ends
        rw [full, List.getD_eq_getElem?_getD, List.getElem?_eq_getElem (by rw [size]; omega),
          Option.getD_some, ih (Nat.lt_of_not_le more) dropped]
        · rw [List.append_assoc, List.singleton_append]
        refine ⟨entry.short, entry.ends.trans ends, ?_⟩
        intro other short otherEnds
        apply entry.max other short
        apply List.suffix_of_suffix_length_le otherEnds ends
        rw [List.length_take]
        omega
    next partial_ =>
      rw [if_neg fun occurs => partial_ (whole.mpr occurs), ih room dropped]
      have short := next.short
      refine ⟨by omega, next.ends, ?_⟩
      intro other otherShort otherEnds
      exact next.max other (by omega) otherEnds

theorem filter_ends_eq (nonempty : pattern ≠ []) :
    ((List.range' 0 text.length).filter fun last =>
      pattern.length ≤ last + 1 && occursAt pattern text (last + 1 - pattern.length)).map
        (fun last => last + 1 - pattern.length) =
      (List.range (text.length + 1 - pattern.length)).filter (occursAt pattern text) := by
  have positive : 0 < pattern.length := List.length_pos_iff.mpr nonempty
  have early : ∀ count, count < pattern.length → (List.range' 0 count).filter (fun last =>
      pattern.length ≤ last + 1 && occursAt pattern text (last + 1 - pattern.length)) = [] := by
    intro count short
    refine List.filter_eq_nil_iff.mpr ?_
    intro last member
    have bound := List.mem_range'_1.mp member
    simp only [Bool.and_eq_true, decide_eq_true_eq, not_and]
    omega
  by_cases fits : pattern.length ≤ text.length
  · have split : List.range' 0 text.length = List.range' 0 (pattern.length - 1) ++
        List.range' (pattern.length - 1) (text.length + 1 - pattern.length) := by
      have joined := @List.range'_append_1 0 (pattern.length - 1)
        (text.length + 1 - pattern.length)
      rw [Nat.zero_add] at joined
      rw [joined]
      congr 1
      omega
    have shifted : List.range' (pattern.length - 1) (text.length + 1 - pattern.length) =
        (List.range (text.length + 1 - pattern.length)).map (fun start =>
          start + (pattern.length - 1)) := by
      rw [List.range'_eq_map_range]
      exact List.map_congr_left fun start _ => Nat.add_comm _ _
    rw [split, List.filter_append, early _ (by omega), List.nil_append, shifted, List.filter_map,
      List.map_map]
    have back : ∀ start, start + (pattern.length - 1) + 1 - pattern.length = start := by
      intro start
      omega
    have reached : ∀ start, pattern.length ≤ start + (pattern.length - 1) + 1 := by
      intro start
      omega
    simp only [Function.comp_def, back, reached, decide_true, Bool.true_and, List.map_id']
  · rw [early _ (by omega), show text.length + 1 - pattern.length = 0 by omega]
    rfl

/-- The scan of a text finds the starts of the pattern, up to the limit. -/
theorem scan_eq_windows (text : List α) (nonempty : pattern ≠ []) (positive : 0 < limit) :
    scan pattern (fallbackTable pattern) limit [] 0 0 text =
      ((List.range (text.length + 1 - pattern.length)).filter (occursAt pattern text)).take
        limit := by
  have start : Longest pattern pattern.length (text.take 0) 0 := by
    refine ⟨List.length_pos_iff.mpr nonempty, List.nil_suffix, ?_⟩
    intro other short ends
    have length := ends.length_le
    rw [List.length_take, List.take_zero, List.length_nil] at length
    omega
  have room : ([] : List Nat).length < limit := positive
  rw [scan_eq_take nonempty room List.drop_zero start, List.nil_append, filter_ends_eq nonempty]

end Codex.Matching
