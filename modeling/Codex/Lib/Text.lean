import Mathlib

/-!
# Rust strings as lists of scalar values

A `str` is the list of its Unicode scalar values, and its `len` is the length of the
UTF-8 encoding. `char::is_whitespace` is the Unicode `White_Space` property, which is
larger than Lean's `Char.isWhitespace`.
-/

namespace Codex

/-- A `str`: its Unicode scalar values. -/
abbrev Text := List Char

namespace Text

/-- `char::is_whitespace`: the `White_Space` property of Unicode. -/
def isWhitespace (c : Char) : Bool :=
  let n := c.toNat
  (0x09 ≤ n && n ≤ 0x0d) || n == 0x20 || n == 0x85 || n == 0xa0 || n == 0x1680 ||
    (0x2000 ≤ n && n ≤ 0x200a) || n == 0x2028 || n == 0x2029 || n == 0x202f || n == 0x205f ||
    n == 0x3000

/-- `str::len`. -/
def utf8Len (text : Text) : Nat := (text.map Char.utf8Size).sum

def trimStart (text : Text) : Text := text.dropWhile isWhitespace

def trimEnd (text : Text) : Text := text.rdropWhile isWhitespace

def trim (text : Text) : Text := trimEnd (trimStart text)

/-- `str::strip_prefix`. -/
def stripPrefix (marker text : Text) : Option Text :=
  if marker <+: text then some (text.drop marker.length) else none

/-- `str::strip_suffix`. -/
def stripSuffix (marker text : Text) : Option Text :=
  if marker <:+ text then some (text.take (text.length - marker.length)) else none

/-- `str::split_once`. -/
def splitOnce (marker : Text) : Text → Option (Text × Text)
  | [] => if marker = [] then some ([], []) else none
  | c :: text =>
      if marker <+: c :: text then some ([], (c :: text).drop marker.length)
      else (splitOnce marker text).map fun split => (c :: split.1, split.2)

/-- `str::split_inclusive('\n')`: every segment but the last ends in a line feed. -/
def splitInclusive : Text → List Text
  | [] => []
  | c :: text =>
      if c = '\n' then [c] :: splitInclusive text
      else
        match splitInclusive text with
        | [] => [[c]]
        | segment :: segments => (c :: segment) :: segments

/-- `str::split('\n').next()`. -/
def firstLine (text : Text) : Text := text.takeWhile (fun c => c != '\n')

/-- `str::rsplit('\n').next()`. -/
def lastLine (text : Text) : Text := text.rtakeWhile (fun c => c != '\n')

/-- `&text[offset..]`, for an offset in bytes at the start of a character. -/
def sliceFrom : Nat → Text → Text
  | 0, text => text
  | _ + 1, [] => []
  | offset + 1, c :: text => sliceFrom (offset + 1 - c.utf8Size) text

/-- `&text[..offset]`, for an offset in bytes at the start of a character. -/
def sliceTo : Nat → Text → Text
  | 0, _ => []
  | _ + 1, [] => []
  | offset + 1, c :: text => c :: sliceTo (offset + 1 - c.utf8Size) text

@[simp] theorem stripPrefix_append (marker text : Text) :
    stripPrefix marker (marker ++ text) = some text := by
  simp [stripPrefix]

variable {marker text : Text} {c : Char}

theorem stripPrefix_eq_some {rest : Text} :
    stripPrefix marker text = some rest ↔ text = marker ++ rest := by
  constructor
  · intro stripped
    unfold stripPrefix at stripped
    split at stripped
    · next isPrefix =>
      obtain ⟨tail, rfl⟩ := isPrefix
      simpa using stripped
    · cases stripped
  · rintro rfl
    exact stripPrefix_append marker rest

/-- A marker that differs inside its first `n` characters is no prefix. -/
theorem not_prefix_of_take (n : Nat) (inside : n ≤ marker.length)
    (differs : text.take n ≠ marker.take n) : ¬ marker <+: text := by
  rintro ⟨rest, rfl⟩
  exact differs (List.take_append_of_le_length inside)

theorem stripPrefix_of_not_prefix (differs : ¬ marker <+: text) :
    stripPrefix marker text = none := by
  rw [stripPrefix, if_neg differs]

@[simp] theorem stripSuffix_concat (a : Char) (text : Text) :
    stripSuffix [a] (text ++ [a]) = some text := by
  simp [stripSuffix]

theorem stripSuffix_concat_ne {a b : Char} (different : b ≠ a) (text : Text) :
    stripSuffix [a] (text ++ [b]) = none := by
  rw [stripSuffix, if_neg]
  rintro ⟨rest, same⟩
  have last := (List.append_inj' same rfl).2
  exact different (List.singleton_inj.mp last).symm

@[simp] theorem stripSuffix_nil (a : Char) : stripSuffix [a] [] = none := by
  simp [stripSuffix]

/-- A first character other than the stripped one stays. -/
theorem stripSuffix_cons {a : Char} (different : c ≠ a) (text : Text) :
    stripSuffix [a] (c :: text) = (stripSuffix [a] text).map (fun rest => c :: rest) := by
  rcases List.eq_nil_or_concat text with rfl | ⟨init, last, rfl⟩
  · exact stripSuffix_concat_ne different []
  rw [List.concat_eq_append, ← List.cons_append]
  by_cases same : last = a
  · rw [same, stripSuffix_concat, stripSuffix_concat]
    rfl
  · rw [stripSuffix_concat_ne same, stripSuffix_concat_ne same]
    rfl

theorem trimStart_cons (c : Char) (text : Text) :
    trimStart (c :: text) = if isWhitespace c then trimStart text else c :: text := by
  simp only [trimStart, List.dropWhile_cons]

theorem trimEnd_concat (text : Text) (c : Char) :
    trimEnd (text ++ [c]) = if isWhitespace c then trimEnd text else text ++ [c] := by
  simp only [trimEnd, List.rdropWhile_concat]

theorem trimEnd_cons (c : Char) (text : Text) :
    trimEnd (c :: text) =
      if trimEnd text = [] then (if isWhitespace c then [] else [c]) else c :: trimEnd text := by
  induction text using List.reverseRecOn with
  | nil => exact trimEnd_concat [] c
  | append_singleton init last ih =>
    rw [← List.cons_append, trimEnd_concat, trimEnd_concat]
    split
    · exact ih
    · rw [if_neg (by simp)]
      rfl

theorem trimEnd_cons_of_visible (visible : isWhitespace c = false) (text : Text) :
    trimEnd (c :: text) = c :: trimEnd text := by
  rw [trimEnd_cons, visible]
  split
  · next blank => rw [blank]; rfl
  · rfl

/-- Trimming the two ends commutes. -/
theorem trimStart_trimEnd (text : Text) : trimStart (trimEnd text) = trimEnd (trimStart text) := by
  induction text with
  | nil => rfl
  | cons c text ih =>
    rw [trimStart_cons]
    cases blank : isWhitespace c with
    | false =>
      rw [trimEnd_cons_of_visible blank, trimStart_cons, blank]
      simp [trimEnd_cons_of_visible blank]
    | true =>
      rw [if_pos rfl, ← ih, trimEnd_cons, blank]
      split
      · next empty => rw [empty]; rfl
      · rw [trimStart_cons, blank, if_pos rfl]

theorem trimStart_trimStart (text : Text) : trimStart (trimStart text) = trimStart text :=
  List.dropWhile_idempotent _ _

theorem trimEnd_trimEnd (text : Text) : trimEnd (trimEnd text) = trimEnd text :=
  List.rdropWhile_idempotent _ _

@[simp] theorem trim_trimStart (text : Text) : trim (trimStart text) = trim text := by
  rw [trim, trimStart_trimStart, trim]

@[simp] theorem trim_trimEnd (text : Text) : trim (trimEnd text) = trim text := by
  rw [trim, trimStart_trimEnd, trimEnd_trimEnd, trim]

/-- Trailing white space does not change the trimmed text. -/
theorem trim_concat_of_blank (blank : isWhitespace c = true) (text : Text) :
    trim (text ++ [c]) = trim text := by
  rw [← trim_trimEnd, trimEnd_concat, if_pos blank, trim_trimEnd]

theorem trimStart_append (visible : trimStart text ≠ []) (rest : Text) :
    trimStart (text ++ rest) = trimStart text ++ rest := by
  rw [trimStart, List.dropWhile_append, if_neg]
  · rfl
  · simpa [trimStart, List.isEmpty_iff] using visible

theorem trimEnd_append (visible : trimEnd text ≠ []) (front : Text) :
    trimEnd (front ++ text) = front ++ trimEnd text := by
  induction front with
  | nil => rfl
  | cons c front ih =>
    rw [List.cons_append, trimEnd_cons, ih, if_neg (by simp [visible])]
    rfl

/-- A text with visible ends is trimmed. -/
theorem trim_eq_self (start : trimStart text = text) (stop : trimEnd text = text) :
    trim text = text := by
  rw [trim, start, stop]

/-- A text without white space is trimmed. -/
theorem trim_of_visible (visible : ∀ c ∈ text, isWhitespace c = false) :
    trim text = text := by
  refine trim_eq_self ?_ ?_
  · cases text with
    | nil => rfl
    | cons c text => rw [trimStart_cons, if_neg (by simp [visible c])]
  · rcases List.eq_nil_or_concat text with rfl | ⟨init, c, rfl⟩
    · rfl
    · rw [List.concat_eq_append, trimEnd_concat, if_neg (by simp [visible c])]

/-- No character of a text without line feed is one. -/
theorem ne_feed_of_mem (single : '\n' ∉ text) (member : c ∈ text) :
    (c != '\n') = true := by
  rw [bne_iff_ne]
  rintro rfl
  exact single member

theorem lastLine_append_feed (front back : Text) :
    lastLine (front ++ '\n' :: back) = lastLine back := by
  induction back using List.reverseRecOn with
  | nil => exact List.rtakeWhile_concat_neg _ _ _ (by decide)
  | append_singleton init c ih =>
    rw [← List.cons_append, ← List.append_assoc]
    unfold lastLine at ih ⊢
    rw [List.rtakeWhile_concat, List.rtakeWhile_concat, ih]

theorem firstLine_append_feed {front : Text} (single : '\n' ∉ front) (back : Text) :
    firstLine (front ++ '\n' :: back) = front := by
  unfold firstLine
  rw [List.takeWhile_append_of_pos (fun c member => ne_feed_of_mem single member)]
  simp

theorem not_mem_lastLine (text : Text) : '\n' ∉ lastLine text := by
  intro member
  have kept := List.mem_rtakeWhile_imp member
  simp at kept

theorem firstLine_of_single (single : '\n' ∉ text) : firstLine text = text :=
  List.takeWhile_eq_self_iff.mpr (fun _ member => ne_feed_of_mem single member)

theorem lastLine_of_single (single : '\n' ∉ text) : lastLine text = text :=
  List.rtakeWhile_eq_self_iff.mpr (fun _ member => ne_feed_of_mem single member)

/-- A text with a line feed: its first line, its last line, and the complete lines between. -/
theorem exists_lines (feed : '\n' ∈ text) :
    ∃ middle, text = firstLine text ++ '\n' :: (middle ++ lastLine text) ∧
      '\n' ∉ firstLine text ∧ (middle = [] ∨ ∃ init, middle = init ++ ['\n']) := by
  obtain ⟨front, back, rfl, single⟩ := List.eq_append_cons_of_mem feed
  rw [firstLine_append_feed single, lastLine_append_feed]
  refine ⟨back.rdropWhile (fun c => c != '\n'), ?_, single, ?_⟩
  · unfold lastLine
    rw [List.rdropWhile_append_rtakeWhile]
  rcases List.eq_nil_or_concat (back.rdropWhile (fun c => c != '\n')) with empty | ⟨init, c, ends⟩
  · exact .inl empty
  right
  refine ⟨init, ?_⟩
  have last := List.rdropWhile_last_not (fun c => c != '\n') back (by simp [ends])
  simp only [ends, List.concat_eq_append, List.getLast_append_singleton, bne_iff_ne, ne_eq,
    not_not] at last
  rw [ends, last, List.concat_eq_append]

theorem splitInclusive_append_feed {front : Text} (single : '\n' ∉ front) (rest : Text) :
    splitInclusive (front ++ '\n' :: rest) = (front ++ ['\n']) :: splitInclusive rest := by
  induction front with
  | nil => rw [List.nil_append, splitInclusive, if_pos rfl, List.nil_append]
  | cons c front ih =>
    rw [List.mem_cons, not_or] at single
    rw [List.cons_append, splitInclusive, if_neg (Ne.symm single.1), ih single.2]
    rfl

theorem flatten_splitInclusive (text : Text) : (splitInclusive text).flatten = text := by
  induction text with
  | nil => rfl
  | cons c text ih =>
    rw [splitInclusive]
    split
    · rw [List.flatten_cons, ih, List.singleton_append]
    cases isSplit : splitInclusive text with
    | nil | cons segment segments =>
      rw [isSplit] at ih
      rw [← ih]
      rfl

theorem utf8Len_le_of_sublist {part whole : Text} (sublist : part.Sublist whole) :
    utf8Len part ≤ utf8Len whole := by
  induction sublist with
  | slnil => exact le_rfl
  | cons c _ ih | cons_cons c _ ih =>
    simp only [utf8Len, List.map_cons, List.sum_cons] at ih ⊢
    omega

theorem utf8Len_append (first second : Text) :
    utf8Len (first ++ second) = utf8Len first + utf8Len second := by
  simp [utf8Len]

theorem utf8Len_cons (c : Char) (text : Text) : utf8Len (c :: text) = c.utf8Size + utf8Len text := by
  simp [utf8Len]

theorem utf8Len_eq_zero (empty : utf8Len text = 0) : text = [] := by
  cases text with
  | nil => rfl
  | cons c text =>
    rw [utf8Len_cons] at empty
    have positive := c.utf8Size_pos
    omega

theorem sliceFrom_append (first second : Text) :
    sliceFrom (utf8Len first) (first ++ second) = second := by
  induction first with
  | nil => exact sliceFrom.eq_1 second
  | cons c first ih =>
    have positive := c.utf8Size_pos
    rw [utf8Len_cons, List.cons_append]
    obtain ⟨offset, isOffset⟩ : ∃ offset, c.utf8Size + utf8Len first = offset + 1 :=
      ⟨c.utf8Size + utf8Len first - 1, by omega⟩
    rw [isOffset, sliceFrom, ← isOffset, Nat.add_sub_cancel_left, ih]

theorem sliceTo_append (first second : Text) :
    sliceTo (utf8Len first) (first ++ second) = first := by
  induction first with
  | nil => exact sliceTo.eq_1 second
  | cons c first ih =>
    have positive := c.utf8Size_pos
    rw [utf8Len_cons, List.cons_append]
    obtain ⟨offset, isOffset⟩ : ∃ offset, c.utf8Size + utf8Len first = offset + 1 :=
      ⟨c.utf8Size + utf8Len first - 1, by omega⟩
    rw [isOffset, sliceTo, ← isOffset, Nat.add_sub_cancel_left, ih]

theorem trim_sublist (text : Text) : (trim text).Sublist text :=
  (List.rdropWhile_prefix _ _).sublist.trans (List.dropWhile_suffix _).sublist

end Text

end Codex
