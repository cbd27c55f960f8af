import Codex.Lib.Matching
import Codex.Lib.Text

/-!
# Searching for lines

`apply-patch/src/seek_sequence.rs`: where the lines of a pattern occur in the lines of a source, at
four tiers of decreasing strictness.
-/

namespace Codex.ApplyPatch

open Codex.Text Codex.Matching

/-- The tiers of `TIERS`. -/
inductive Strictness where
  | exact
  | trailingWhitespace
  | whitespace
  | unicodeNormalized
  deriving DecidableEq, Repr

/-- `TIERS` (`seek_sequence.rs:103`). -/
def TIERS : List Strictness := [.exact, .trailingWhitespace, .whitespace, .unicodeNormalized]

/-- The characters that `normalise` replaces. -/
def normaliseChar (c : Char) : Char :=
  let n := c.toNat
  if (0x2010 ≤ n ∧ n ≤ 0x2015) ∨ n = 0x2212 then '-'
  else if 0x2018 ≤ n ∧ n ≤ 0x201b then '\''
  else if 0x201c ≤ n ∧ n ≤ 0x201f then '"'
  else if n = 0xa0 ∨ (0x2002 ≤ n ∧ n ≤ 0x200a) ∨ n = 0x202f ∨ n = 0x205f ∨ n = 0x3000 then ' '
  else c

/-- `normalise` (`seek_sequence.rs:116`). -/
def normalise (s : Text) : Text := (trim s).map normaliseChar

/-- What is compared of a line at a tier. -/
def Strictness.prepare : Strictness → Text → Text
  | exact => id
  | trailingWhitespace => trimEnd
  | whitespace => trim
  | unicodeNormalized => normalise

/-- `AmbiguousMatch` (`seek_sequence.rs:230`). -/
structure AmbiguousMatch where
  firstLine : Nat
  secondLine : Nat
  strictness : Strictness
  deriving DecidableEq, Repr

/-- The indices of a search, both ends included. -/
def searchRange (searchStart lastStart : Nat) : List Nat :=
  List.range' searchStart (lastStart + 1 - searchStart)

/-- `tier_matches` (`seek_sequence.rs:135`). An empty pattern has no last tier of its own. -/
def tierMatches (lines pattern : List Text) (searchStart lastStart : Nat)
    (strictness : Strictness) (limit : Nat) : List Nat :=
  let direct := collect (fun index => (lines.drop index).take pattern.length = pattern)
    (max limit 1) [] (searchRange searchStart lastStart)
  let trimmed := fun prepare : Text → Text =>
    let preparedLines := (lines.drop searchStart).map prepare
    let preparedPattern := pattern.map prepare
    collect (fun index =>
      (preparedLines.drop (index - searchStart)).take pattern.length = preparedPattern)
      (max limit 1) [] (searchRange searchStart lastStart)
  match strictness with
  | .exact => direct
  | .trailingWhitespace => trimmed trimEnd
  | .whitespace => trimmed trim
  | .unicodeNormalized =>
      if pattern.isEmpty then direct
      else
        let normalizedPattern := pattern.map normalise
        let normalizedLines :=
          ((lines.take (lastStart + pattern.length)).drop searchStart).map normalise
        (scan normalizedPattern (fallbackTable normalizedPattern) (max limit 1) [] 0 0
          normalizedLines).map (fun offset => searchStart + offset)

/-- The tiers in turn, until one matches. -/
def seekTiers (lines pattern : List Text) (searchStart lastStart : Nat) (anchored : Bool) :
    List Strictness → Except AmbiguousMatch (Option Nat)
  | [] => .ok none
  | strictness :: rest =>
      let limit := if anchored then 1 else 2
      match tierMatches lines pattern searchStart lastStart strictness limit with
      | [] => seekTiers lines pattern searchStart lastStart anchored rest
      | [only] => .ok (some only)
      | first :: second :: _ => .error ⟨first + 1, second + 1, strictness⟩

/-- `seek_sequence` (`seek_sequence.rs:16`). -/
def seekSequence (lines pattern : List Text) (start : Nat) (eof anchored : Bool) :
    Except AmbiguousMatch (Option Nat) :=
  if pattern.isEmpty then
    .ok (if start ≤ lines.length then some (if eof then lines.length else start) else none)
  else if lines.length < pattern.length then .ok none
  else
    let lastStart := lines.length - pattern.length
    if lastStart < start then .ok none
    else
      let searchStart := if eof then lastStart else start
      seekTiers lines pattern searchStart lastStart anchored TIERS

/-- `ambiguous_candidates` (`seek_sequence.rs:59`). -/
def ambiguousCandidates (lines pattern : List Text) (start : Nat) (eof : Bool)
    (ambiguity : AmbiguousMatch) (limit : Nat) : List Nat :=
  if lines.length < pattern.length then []
  else
    let lastStart := lines.length - pattern.length
    if pattern.isEmpty ∨ lastStart < start then []
    else
      let searchStart := if eof then lastStart else start
      tierMatches lines pattern searchStart lastStart ambiguity.strictness limit

/-- `candidate_starts_at_any_tier` (`seek_sequence.rs:87`). -/
def candidateStartsAtAnyTier (lines pattern : List Text) (limit : Nat) : List Nat :=
  if lines.length < pattern.length ∨ pattern.isEmpty then []
  else tierMatches lines pattern 0 (lines.length - pattern.length) .unicodeNormalized limit

/-- The lines at a start match a pattern at a tier. -/
def matchesAt (strictness : Strictness) (lines pattern : List Text) (start : Nat) : Bool :=
  ((lines.drop start).take pattern.length).map strictness.prepare =
    pattern.map strictness.prepare

/-- The windows that a search may select: those that start at or after its start, and only the last
    window of the file when the match must end there. -/
def windows (lines pattern : List Text) (start : Nat) (eof : Bool) : List Nat :=
  (List.range (lines.length + 1 - pattern.length)).filter fun index =>
    start ≤ index && (!eof || index + pattern.length = lines.length)

/-- The windows that match at a tier. -/
def sites (lines pattern : List Text) (start : Nat) (eof : Bool) (strictness : Strictness) :
    List Nat :=
  (windows lines pattern start eof).filter (matchesAt strictness lines pattern)

/-- Of the sites at a tier, the first when the search is anchored or it is the only one, and else an
    ambiguity that names the first two. -/
def chooseSite (anchored : Bool) (strictness : Strictness) :
    List Nat → Except AmbiguousMatch (Option Nat)
  | [] => .ok none
  | [only] => .ok (some only)
  | first :: second :: _ =>
      if anchored then .ok (some first) else .error ⟨first + 1, second + 1, strictness⟩

/-- The first of some tiers at which a window matches decides. -/
def seekReferenceAt (tiers : List Strictness) (lines pattern : List Text) (start : Nat)
    (eof anchored : Bool) : Except AmbiguousMatch (Option Nat) :=
  match tiers.find? (fun strictness => !(sites lines pattern start eof strictness).isEmpty) with
  | none => .ok none
  | some strictness => chooseSite anchored strictness (sites lines pattern start eof strictness)

/-- The strictest tier at which a window matches decides. -/
def seekReference (lines pattern : List Text) (start : Nat) (eof anchored : Bool) :
    Except AmbiguousMatch (Option Nat) :=
  seekReferenceAt TIERS lines pattern start eof anchored

section Tiers

variable {lines pattern : List Text} {searchStart lastStart limit : Nat} {strictness : Strictness}

theorem drop_take_map (lines : List Text) (count start length : Nat) (prepare : Text → Text) :
    (((lines.drop count).map prepare).drop start).take length =
      ((lines.drop (count + start)).take length).map prepare := by
  rw [← List.map_drop, List.drop_drop, List.map_take]

/-- Each tier finds, up to the limit, the windows in its range that match. -/
theorem tierMatches_eq (nonempty : pattern ≠ [])
    (bound : lastStart + pattern.length ≤ lines.length) :
    tierMatches lines pattern searchStart lastStart strictness limit =
      ((searchRange searchStart lastStart).filter (matchesAt strictness lines pattern)).take
        (max limit 1) := by
  have positive : 0 < max limit 1 := by omega
  have room : ([] : List Nat).length < max limit 1 := positive
  have trimmed : ∀ prepare : Text → Text,
      collect (fun index =>
        (((lines.drop searchStart).map prepare).drop (index - searchStart)).take pattern.length =
          pattern.map prepare) (max limit 1) [] (searchRange searchStart lastStart) =
      ((searchRange searchStart lastStart).filter fun index =>
        ((lines.drop index).take pattern.length).map prepare = pattern.map prepare).take
          (max limit 1) := by
    intro prepare
    rw [collect_eq_take room, List.nil_append]
    congr 1
    refine List.filter_congr ?_
    intro index member
    have bound := (List.mem_range'_1.mp member).1
    rw [drop_take_map, Nat.add_sub_cancel' bound]
  cases strictness with
  | exact =>
    simp only [tierMatches]
    rw [collect_eq_take room, List.nil_append]
    congr 1
    refine List.filter_congr ?_
    intro index _
    simp [matchesAt, Strictness.prepare]
  | trailingWhitespace => exact trimmed trimEnd
  | whitespace => exact trimmed trim
  | unicodeNormalized =>
    have full : pattern.isEmpty = false := by simpa using nonempty
    have normalizedNonempty : pattern.map normalise ≠ [] := by simpa using nonempty
    simp only [tierMatches, full, Bool.false_eq_true, if_false]
    rw [scan_eq_windows _ normalizedNonempty positive, List.map_take]
    congr 1
    simp only [List.length_map, List.length_drop, List.length_take, Nat.min_eq_left bound]
    rw [searchRange, List.range'_eq_map_range, List.filter_map]
    have count : lastStart + pattern.length - searchStart + 1 - pattern.length =
        lastStart + 1 - searchStart := by
      have positive := List.length_pos_iff.mpr nonempty
      omega
    rw [count]
    congr 1
    refine List.filter_congr ?_
    intro offset member
    have inside := List.mem_range.mp member
    simp only [occursAt, List.length_map, Function.comp_apply, matchesAt, Strictness.prepare]
    congr 1
    rw [← List.map_drop, ← List.map_take, List.drop_drop, List.drop_take, List.take_take,
      Nat.min_eq_left (by omega)]

variable {start : Nat} {eof : Bool}

theorem mem_windows {index : Nat} :
    index ∈ windows lines pattern start eof ↔
      index + pattern.length ≤ lines.length ∧ start ≤ index ∧
        (eof = true → index + pattern.length = lines.length) := by
  simp only [windows, List.mem_filter, List.mem_range, Bool.and_eq_true, decide_eq_true_eq,
    Bool.or_eq_true, Bool.not_eq_true']
  cases eof with
  | true => simp; omega
  | false => simp; omega

/-- The windows of a search are the range that its loops run over. -/
theorem windows_eq (short : pattern.length ≤ lines.length)
    (inside : start ≤ lines.length - pattern.length) :
    windows lines pattern start eof =
      searchRange (if eof then lines.length - pattern.length else start)
        (lines.length - pattern.length) := by
  apply List.Pairwise.eq_of_mem_iff (r := (· < ·))
  · exact List.pairwise_lt_range.filter _
  · exact List.pairwise_lt_range'
  · intro index
    rw [mem_windows, searchRange, List.mem_range'_1]
    cases eof with
    | true => simp; omega
    | false => simp; omega

theorem windows_of_outside
    (outside : lines.length < pattern.length ∨ lines.length - pattern.length < start) :
    windows lines pattern start eof = [] := by
  refine List.eq_nil_iff_forall_not_mem.mpr ?_
  intro index member
  have bounds := mem_windows.mp member
  omega

end Tiers

section Seek

variable {lines pattern : List Text}

/-- The tiers are tried until one has a site; the limit is enough to tell one from more. -/
theorem seekTiers_eq {start : Nat} {eof : Bool} (anchored : Bool) (nonempty : pattern ≠ [])
    (short : pattern.length ≤ lines.length) (inside : start ≤ lines.length - pattern.length)
    (tiers : List Strictness) :
    seekTiers lines pattern (if eof then lines.length - pattern.length else start)
        (lines.length - pattern.length) anchored tiers =
      seekReferenceAt tiers lines pattern start eof anchored := by
  induction tiers with
  | nil => rfl
  | cons strictness rest ih =>
    have found : tierMatches lines pattern (if eof then lines.length - pattern.length else start)
        (lines.length - pattern.length) strictness (if anchored then 1 else 2) =
          (sites lines pattern start eof strictness).take (if anchored then 1 else 2) := by
      rw [tierMatches_eq nonempty (by omega), ← windows_eq short inside, sites]
      cases anchored with
      | true => rfl
      | false => rfl
    rw [seekTiers, found, seekReferenceAt, List.find?_cons]
    cases hits : sites lines pattern start eof strictness with
    | nil => simpa [seekReferenceAt] using ih
    | cons first more =>
      cases anchored with
      | true =>
        cases more with
        | nil => simp [chooseSite, hits]
        | cons second others => simp [chooseSite, hits]
      | false =>
        cases more with
        | nil => simp [chooseSite, hits]
        | cons second others => simp [chooseSite, hits]

theorem seekSequence_eq (lines : List Text) {pattern : List Text} (start : Nat)
    (eof anchored : Bool) (nonempty : pattern ≠ []) :
    seekSequence lines pattern start eof anchored =
      seekReference lines pattern start eof anchored := by
  have full : pattern.isEmpty = false := by simpa using nonempty
  have outside : lines.length < pattern.length ∨ lines.length - pattern.length < start →
      seekReference lines pattern start eof anchored = .ok none := by
    intro outside
    have none : ∀ strictness, sites lines pattern start eof strictness = [] := by
      intro strictness
      rw [sites, windows_of_outside outside, List.filter_nil]
    have noTier : TIERS.find? (fun strictness =>
        !(sites lines pattern start eof strictness).isEmpty) = Option.none := by
      simp [List.find?_eq_none, none]
    rw [seekReference, seekReferenceAt, noTier]
  unfold seekSequence
  rw [if_neg (by simp [full])]
  split
  next long => exact (outside (.inl long)).symm
  next short =>
    simp only
    split
    next late => exact (outside (.inr late)).symm
    next inside =>
      exact seekTiers_eq anchored nonempty (Nat.not_lt.mp short) (Nat.not_lt.mp inside) TIERS

/-- The search selects what its specification selects, and the pass of the last tier finds the
    windows that match, up to the limit. -/
theorem seekSequence_selects (lines pattern : List Text) (start : Nat) (eof anchored : Bool)
    (nonempty : pattern ≠ []) :
    seekSequence lines pattern start eof anchored =
        seekReference lines pattern start eof anchored ∧
      ∀ searchStart lastStart limit, lastStart + pattern.length ≤ lines.length →
        tierMatches lines pattern searchStart lastStart .unicodeNormalized limit =
          ((searchRange searchStart lastStart).filter
            (matchesAt .unicodeNormalized lines pattern)).take (max limit 1) :=
  ⟨seekSequence_eq lines start eof anchored nonempty,
    fun _ _ _ bound => tierMatches_eq nonempty bound⟩

/-- The overlapping matches of a periodic pattern are found. -/
theorem seekSequence_selects_periodic :
    seekSequence [['a', ' '], ['a'], [' ', 'a']] [['a'], ['\u2009', 'a']] 0 false false =
        seekReference [['a', ' '], ['a'], [' ', 'a']] [['a'], ['\u2009', 'a']] 0 false false ∧
      tierMatches [['a', ' '], ['a'], [' ', 'a']] [['a'], ['\u2009', 'a']] 0 1
          .unicodeNormalized 3 =
        ((searchRange 0 1).filter (matchesAt .unicodeNormalized [['a', ' '], ['a'], [' ', 'a']]
          [['a'], ['\u2009', 'a']])).take (max 3 1) :=
  ⟨(seekSequence_selects _ _ 0 false false (by decide)).1,
    (seekSequence_selects [['a', ' '], ['a'], [' ', 'a']] [['a'], ['\u2009', 'a']] 0 false false
      (by decide)).2 0 1 3 (by decide)⟩

end Seek

section Found

variable {lines pattern : List Text} {start index : Nat} {eof anchored : Bool}

variable {strictness : Strictness}

theorem mem_sites :
    index ∈ sites lines pattern start eof strictness ↔
      index ∈ windows lines pattern start eof ∧
        matchesAt strictness lines pattern index = true := List.mem_filter

theorem chooseSite_some {found : List Nat}
    (chosen : chooseSite anchored strictness found = .ok (some index)) : index ∈ found := by
  unfold chooseSite at chosen
  split at chosen
  · cases chosen
  next only => simp_all
  next first second rest =>
    split at chosen
    · simp_all
    · cases chosen

theorem chooseSite_none {found : List Nat}
    (chosen : chooseSite anchored strictness found = .ok none) : found = [] := by
  unfold chooseSite at chosen
  split at chosen
  · rfl
  · simp at chosen
  · split at chosen
    · simp at chosen
    · cases chosen

/-- What a search finds is a window that matches at some tier. -/
theorem seekSequence_found (nonempty : pattern ≠ [])
    (found : seekSequence lines pattern start eof anchored = .ok (some index)) :
    ∃ strictness, index ∈ sites lines pattern start eof strictness := by
  rw [seekSequence_eq lines start eof anchored nonempty, seekReference, seekReferenceAt] at found
  split at found
  · cases found
  next strictness _ => exact ⟨strictness, chooseSite_some found⟩

/-- A search that finds nothing leaves no window at any tier. -/
theorem seekSequence_none (nonempty : pattern ≠ [])
    (none_ : seekSequence lines pattern start eof anchored = .ok none) (strictness : Strictness) :
    sites lines pattern start eof strictness = [] := by
  rw [seekSequence_eq lines start eof anchored nonempty, seekReference, seekReferenceAt] at none_
  have listed : strictness ∈ TIERS := by cases strictness <;> decide
  split at none_
  next absent => simpa using List.find?_eq_none.mp absent strictness listed
  next other hit =>
    have some_ := List.find?_some hit
    rw [chooseSite_none none_] at some_
    cases some_

/-- An ambiguity names the first two windows of its tier, in a search that is not anchored. -/
theorem seekSequence_error {ambiguity : AmbiguousMatch} (nonempty : pattern ≠ [])
    (failed : seekSequence lines pattern start eof anchored = .error ambiguity) :
    anchored = false ∧ ∃ first second rest,
      sites lines pattern start eof ambiguity.strictness = first :: second :: rest ∧
        ambiguity.firstLine = first + 1 ∧ ambiguity.secondLine = second + 1 := by
  rw [seekSequence_eq lines start eof anchored nonempty, seekReference, seekReferenceAt] at failed
  split at failed
  · cases failed
  next strictness _ =>
    unfold chooseSite at failed
    split at failed
    · cases failed
    · cases failed
    next first second rest same =>
      split at failed
      · cases failed
      next free =>
        rw [Except.error.injEq] at failed
        subst failed
        exact ⟨Bool.eq_false_of_not_eq_true free, first, second, rest, same, rfl, rfl⟩

/-- The candidates of an ambiguity are the windows of its tier, up to the limit. -/
theorem ambiguousCandidates_eq {ambiguity : AmbiguousMatch} {limit : Nat}
    (nonempty : pattern ≠ []) :
    ambiguousCandidates lines pattern start eof ambiguity limit =
      (sites lines pattern start eof ambiguity.strictness).take (max limit 1) := by
  have full : pattern.isEmpty = false := by simpa using nonempty
  unfold ambiguousCandidates
  split
  next long => rw [sites, windows_of_outside (.inl long), List.filter_nil, List.take_nil]
  next short =>
    simp only [full, Bool.false_eq_true, false_or]
    split
    next late => rw [sites, windows_of_outside (.inr late), List.filter_nil, List.take_nil]
    next inside =>
      rw [tierMatches_eq nonempty (by omega), ← windows_eq (Nat.not_lt.mp short)
        (Nat.not_lt.mp inside), sites]

theorem matchesAt_iff :
    matchesAt strictness lines pattern index = true ↔
      ((lines.drop index).take pattern.length).map strictness.prepare =
        pattern.map strictness.prepare := decide_eq_true_iff

/-- What matches at a tier matches at the last one. -/
theorem matchesAt_unicodeNormalized (found : matchesAt strictness lines pattern index = true) :
    matchesAt .unicodeNormalized lines pattern index = true := by
  have weaker : ∃ rest : Text → Text, ∀ s, normalise s = rest (strictness.prepare s) := by
    cases strictness with
    | exact => exact ⟨normalise, fun _ => rfl⟩
    | trailingWhitespace =>
      refine ⟨normalise, fun s => ?_⟩
      simp only [Strictness.prepare, normalise, trim_trimEnd]
    | whitespace => exact ⟨fun s => s.map normaliseChar, fun _ => rfl⟩
    | unicodeNormalized => exact ⟨id, fun _ => rfl⟩
  obtain ⟨rest, factored⟩ := weaker
  rw [matchesAt_iff] at found ⊢
  have mapped := congrArg (List.map rest) found
  have same : rest ∘ strictness.prepare = normalise := funext fun s => (factored s).symm
  rw [List.map_map, List.map_map, same] at mapped
  exact mapped

end Found

end Codex.ApplyPatch
