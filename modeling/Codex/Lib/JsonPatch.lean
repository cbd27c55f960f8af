import Codex.Lib.JsonDocument
import Mathlib.Tactic.IntervalCases

/-!
# Patches of JSON documents

What an operation with a pointer does to the value of a document, and the edits of the text of a
document that do so. An edit keeps the entries beside the edited one as they are written.
-/

namespace Codex.JsonDocument

open Codex.Text

/-- The change that an operation of a patch makes. -/
inductive Change (α : Type) where
  | add (new : α)
  | replace (new : α)
  | remove

namespace Change

variable {α β : Type}

def isAdd : Change α → Bool
  | add _ => true
  | replace _ | remove => false

def new? : Change α → Option α
  | add new | replace new => some new
  | remove => none

def map (f : α → β) : Change α → Change β
  | add new => .add (f new)
  | replace new => .replace (f new)
  | remove => .remove

end Change

/-- The index that a token names in an array, by its decimal spelling. A dash is the end of the
    array, for an addition. -/
def resolveIndex (token : Text) (length : Nat) (isAdd : Bool) : Option Nat :=
  if isAdd = true ∧ token = ['-'] then some length
  else
    (List.range (if isAdd then length + 1 else length)).find? fun index =>
      decide (Nat.toDigits 10 index = token)

/-- A change of a member or an element. An addition of a member that exists replaces its value, and
    a new one is the last. -/
def Value.change (change : Change Value) (token : Text) : Value → Option Value
  | .scalar _ => none
  | .object members =>
      match change, members.findIdx? fun member => member.1 == token with
      | .add new, some index | .replace new, some index =>
          some (.object (members.set index (token, new)))
      | .add new, none => some (.object (members ++ [(token, new)]))
      | .remove, some index => some (.object (members.eraseIdx index))
      | .replace _, none | .remove, none => none
  | .array values =>
      match change, resolveIndex token values.length change.isAdd with
      | .add new, some index => some (.array (values.insertIdx index new))
      | .replace new, some index => some (.array (values.set index new))
      | .remove, some index => some (.array (values.eraseIdx index))
      | _, none => none

/-- The operation of a patch at the tokens of a pointer. The root cannot be removed. -/
def Value.patch (change : Change Value) : List Text → Value → Option Value
  | [], _ => change.new?
  | token :: rest, value =>
      if rest = [] then value.change change token
      else
        match value with
        | .scalar _ => none
        | .object members =>
            match members.findIdx? fun member => member.1 == token with
            | none => none
            | some index =>
                match members[index]? with
                | none => none
                | some member =>
                    (patch change rest member.2).map fun new =>
                      .object (members.set index (token, new))
        | .array values =>
            match resolveIndex token values.length false with
            | none => none
            | some index =>
                match values[index]? with
                | none => none
                | some value =>
                    (patch change rest value).map fun new => .array (values.set index new)

/-- The operations of a patch in their order. -/
def Value.patchAll : List (List Text × Change Value) → Value → Option Value
  | [], value => some value
  | (tokens, change) :: rest, value => (value.patch change tokens).bind (patchAll rest)

/-- The spelling of a token in a pointer. -/
def escapeToken : Text → Text
  | [] => []
  | c :: rest =>
      if c = '~' then '~' :: '0' :: escapeToken rest
      else if c = '/' then '~' :: '1' :: escapeToken rest
      else c :: escapeToken rest

/-- The text of a pointer. -/
def printPointer (tokens : List Text) : Text := tokens.flatMap fun token => '/' :: escapeToken token

/-- Where a token is among entries: a new member is after the others. -/
def slot (decode : Text → Text) (object : Bool) (entries : List (Entry Doc)) (token : Text)
    (isAdd : Bool) : Option Nat :=
  if object then
    match entries.findIdx? fun entry => entry.name decode == token with
    | some index => some index
    | none => if isAdd then some entries.length else none
  else resolveIndex token entries.length isAdd

/-- The key of a new entry spells its token. -/
structure NewKey (decode : Text → Text) (object : Bool) (token : Text)
    (key : Option (Text × Text)) : Prop where
  keyed : key.isSome = object
  laid : ∀ pair, key = some pair → isString pair.1 = true ∧ IsColon pair.2
  named : ∀ pair, key = some pair → decode pair.1 = token

/-- The edits of an entry. What is written of the entries beside it stays: only the whitespace
    around a comma that goes or comes is put elsewhere. -/
inductive ChildEdited (decode : Text → Text) (token : Text) : Change Doc → Doc → Doc → Prop where
  | replaced (object : Bool) (inner : Text) (front back : List (Entry Doc)) (entry : Entry Doc)
      (new : Doc) (found : slot decode object (front ++ entry :: back) token false =
        some front.length) :
      ChildEdited decode token (.replace new) (.container object inner (front ++ entry :: back))
        (.container object inner (front ++ { entry with value := new } :: back))
  /-- An addition of a member that exists. -/
  | readded (inner : Text) (front back : List (Entry Doc)) (entry : Entry Doc) (new : Doc)
      (found : slot decode true (front ++ entry :: back) token true = some front.length) :
      ChildEdited decode token (.add new) (.container true inner (front ++ entry :: back))
        (.container true inner (front ++ { entry with value := new } :: back))
  /-- The comma after the entry goes with it. -/
  | removed (object : Bool) (front back : List (Entry Doc)) (entry next : Entry Doc)
      (found : slot decode object (front ++ entry :: next :: back) token false =
        some front.length) :
      ChildEdited decode token .remove (.container object [] (front ++ entry :: next :: back))
        (.container object [] (front ++ next :: back))
  /-- The comma before the entry goes with it. -/
  | removedLast (object : Bool) (front : List (Entry Doc)) (previous entry : Entry Doc)
      (found : slot decode object (front ++ [previous, entry]) token false =
        some (front.length + 1)) :
      ChildEdited decode token .remove (.container object [] (front ++ [previous, entry]))
        (.container object [] (front ++ [{ previous with trail := previous.trail ++ entry.trail }]))
  | removedOnly (object : Bool) (entry : Entry Doc)
      (found : slot decode object [entry] token false = some 0) :
      ChildEdited decode token .remove (.container object [] [entry])
        (.container object (entry.lead ++ entry.trail) [])
  /-- A new element before another has the whitespace before that one. -/
  | inserted (front back : List (Entry Doc)) (entry : Entry Doc) (new : Doc)
      (found : slot decode false (front ++ entry :: back) token true = some front.length) :
      ChildEdited decode token (.add new) (.container false [] (front ++ entry :: back))
        (.container false [] (front ++ ⟨entry.lead, none, new, []⟩ :: entry :: back))
  /-- A new last entry has the whitespace of the one that was. -/
  | appended (object : Bool) (front : List (Entry Doc)) (last : Entry Doc)
      (key : Option (Text × Text)) (new : Doc) (spelled : NewKey decode object token key)
      (found : slot decode object (front ++ [last]) token true = some (front.length + 1)) :
      ChildEdited decode token (.add new) (.container object [] (front ++ [last]))
        (.container object []
          (front ++ [{ last with trail := [] }, ⟨last.lead, key, new, last.trail⟩]))
  /-- The whitespace of an empty container is after its new entry, and with an indent before it. -/
  | first (object : Bool) (inner indent : Text) (key : Option (Text × Text)) (new : Doc)
      (spelled : NewKey decode object token key) (blank : Blank indent)
      (found : slot decode object [] token true = some 0) :
      ChildEdited decode token (.add new) (.container object inner [])
        (.container object [] [⟨inner ++ indent, key, new, inner⟩])

/-- The edits at the tokens of a pointer. -/
inductive Edited (decode : Text → Text) (change : Change Doc) : List Text → Doc → Doc → Prop where
  | whole (doc new : Doc) (given : change.new? = some new) : Edited decode change [] doc new
  | child (token : Text) (doc result : Doc) (edited : ChildEdited decode token change doc result) :
      Edited decode change [token] doc result
  | inside (token : Text) (rest : List Text) (more : rest ≠ []) (object : Bool) (inner : Text)
      (front back : List (Entry Doc)) (entry : Entry Doc) (value : Doc)
      (found : slot decode object (front ++ entry :: back) token false = some front.length)
      (edited : Edited decode change rest entry.value value) :
      Edited decode change (token :: rest) (.container object inner (front ++ entry :: back))
        (.container object inner (front ++ { entry with value := value } :: back))

/-- The edits of a patch in their order. -/
inductive EditedAll (decode : Text → Text) : List (List Text × Change Doc) → Doc → Doc → Prop where
  | nil (doc : Doc) : EditedAll decode [] doc doc
  | cons (tokens : List Text) (change : Change Doc) (rest : List (List Text × Change Doc))
      (doc next result : Doc) (edited : Edited decode change tokens doc next)
      (later : EditedAll decode rest next result) :
      EditedAll decode ((tokens, change) :: rest) doc result

/-- The digits of a number that is read from its decimal spelling. -/
theorem toDigits_ofDigitChars {token : Text} (nonempty : token ≠ [])
    (digits : token.all Char.isDigit = true)
    (canonical : 1 < token.length → token.head? ≠ some '0') :
    Nat.toDigits 10 (Nat.ofDigitChars 10 token 0) = token := by
  induction token using List.reverseRecOn with
  | nil => exact absurd rfl nonempty
  | append_singleton front c ih =>
    rw [List.all_append, Bool.and_eq_true, List.all_cons, List.all_nil, Bool.and_true] at digits
    have digit : c.toNat - '0'.toNat < 10 ∧ Nat.digitChar (c.toNat - '0'.toNat) = c := by
      have isDigit := digits.2
      rw [Char.isDigit, Bool.and_eq_true, decide_eq_true_eq, decide_eq_true_eq, ge_iff_le,
        UInt32.le_iff_toNat_le, UInt32.le_iff_toNat_le] at isDigit
      obtain ⟨low, high⟩ := isDigit
      change 48 ≤ c.toNat at low
      change c.toNat ≤ 57 at high
      rw [← Char.ofNat_toNat c]
      generalize c.toNat = code at low high
      interval_cases code <;> decide
    have last : Nat.toDigits 10 (c.toNat - '0'.toNat) = [c] := by
      rw [Nat.toDigits_of_lt_base digit.1, digit.2]
    rw [Nat.ofDigitChars_append, Nat.ofDigitChars_cons, Nat.ofDigitChars_nil]
    by_cases empty : front = []
    · subst empty
      simpa using last
    have own := ih empty digits.1 fun long => by
      have head := canonical (by simp; omega)
      rwa [List.head?_append_of_ne_nil _ empty] at head
    have positive : 0 < Nat.ofDigitChars 10 front 0 := by
      rcases Nat.eq_zero_or_pos (Nat.ofDigitChars 10 front 0) with zero | positive
      · rw [zero, Nat.toDigits_zero] at own
        have head := canonical (by
          have := List.length_pos_iff.mpr empty
          simp
          omega)
        rw [← own] at head
        exact absurd rfl head
      · exact positive
    have joined := Nat.toDigits_append_toDigits (by decide : 1 < 10) positive digit.1
    rw [own, last] at joined
    exact joined.symm

/-- The index of a decimal spelling. -/
theorem resolveIndex_toDigits {token : Text} {index length : Nat} {isAdd : Bool}
    (spelled : Nat.toDigits 10 index = token) (inside : index < if isAdd then length + 1 else length) :
    resolveIndex token length isAdd = some index := by
  have notDash : token ≠ ['-'] := by
    rintro rfl
    have read := Nat.ofDigitChars_ten_toDigits (n := index)
    have member : '-' ∈ Nat.toDigits 10 index := by
      rw [spelled]
      exact List.mem_cons_self
    exact absurd (Nat.isDigit_of_mem_toDigits (by decide) (by decide) member) (by decide)
  rw [resolveIndex, if_neg fun both => notDash both.2, List.find?_range_eq_some]
  refine ⟨by simpa using spelled, List.mem_range.mpr inside, ?_⟩
  intro other before
  have different : Nat.toDigits 10 other ≠ token := by
    intro same
    have equal := congrArg (Nat.ofDigitChars 10 · 0) (same.trans spelled.symm)
    simp only [Nat.ofDigitChars_ten_toDigits] at equal
    omega
  simpa using different

section Edits

variable {decode : Text → Text}

theorem NewKey.laid_entry {object : Bool} {token lead trail : Text} {key : Option (Text × Text)}
    {new : Doc} (spelled : NewKey decode object token key) (leadBlank : Blank lead)
    (trailBlank : Blank trail) : Entry.Laid object ⟨lead, key, new, trail⟩ :=
  ⟨leadBlank, trailBlank, spelled.laid, spelled.keyed⟩

theorem NewKey.name {token lead trail : Text} {key : Option (Text × Text)} {new : Doc}
    (spelled : NewKey decode true token key) :
    Entry.name decode (⟨lead, key, new, trail⟩ : Entry Doc) = token := by
  obtain ⟨pair, written⟩ := Option.isSome_iff_exists.mp spelled.keyed
  rw [Entry.name, written]
  exact spelled.named pair written

theorem Blank.append {first second : Text} (firstBlank : Blank first) (secondBlank : Blank second) :
    Blank (first ++ second) := by
  intro c member
  rcases List.mem_append.mp member with member | member
  · exact firstBlank c member
  · exact secondBlank c member

theorem Blank.nil : Blank [] := fun c member => by cases member

/-- A well-formed container is so with other entries, when these are. -/
theorem Doc.WellFormed.entries {object : Bool} {inner : Text} {entries others : List (Entry Doc)}
    (formed : (Doc.container object inner entries).WellFormed) (nonempty : entries ≠ [])
    (kept : ∀ entry ∈ others, entry ∈ entries ∨ (entry.Laid object ∧ entry.value.WellFormed)) :
    (Doc.container object inner others).WellFormed := by
  cases formed with
  | container _ _ _ blank filled laid values =>
    refine .container object inner others blank (fun _ => filled nonempty) ?_ ?_
    · intro entry member
      rcases kept entry member with old | new
      · exact laid entry old
      · exact new.1
    · intro entry member
      rcases kept entry member with old | new
      · exact values entry old
      · exact new.2

theorem Doc.WellFormed.entry {object : Bool} {inner : Text} {entries : List (Entry Doc)}
    (formed : (Doc.container object inner entries).WellFormed) {entry : Entry Doc}
    (member : entry ∈ entries) : entry.Laid object ∧ entry.value.WellFormed := by
  cases formed with
  | container _ _ _ blank filled laid values => exact ⟨laid entry member, values entry member⟩

/-- Another value in the place of one. -/
theorem Doc.WellFormed.replace_value {object : Bool} {inner : Text} {front back : List (Entry Doc)}
    {entry : Entry Doc} {new : Doc}
    (formed : (Doc.container object inner (front ++ entry :: back)).WellFormed)
    (newFormed : new.WellFormed) :
    (Doc.container object inner (front ++ { entry with value := new } :: back)).WellFormed := by
  refine formed.entries (by simp) fun other member => ?_
  rw [List.mem_append, List.mem_cons] at member
  rcases member with before | rfl | after
  · exact .inl (List.mem_append_left _ before)
  · have own := (@Doc.WellFormed.entry _ _ _ formed entry (by simp)).1
    exact .inr ⟨⟨own.lead, own.trail, own.key, own.keyed⟩, newFormed⟩
  · exact .inl (List.mem_append_right _ (List.mem_cons_of_mem _ after))

theorem ChildEdited.wellFormed {token : Text} {change : Change Doc} {doc result : Doc}
    (edited : ChildEdited decode token change doc result) (formed : doc.WellFormed)
    (newFormed : ∀ new, change.new? = some new → new.WellFormed) : result.WellFormed := by
  cases edited with
  | replaced object inner front back entry new found =>
    exact formed.replace_value (newFormed new rfl)
  | readded inner front back entry new found => exact formed.replace_value (newFormed new rfl)
  | removed object front back entry next found =>
    refine formed.entries (by simp) fun other member => .inl ?_
    rw [List.mem_append] at member ⊢
    rcases member with before | after
    · exact .inl before
    · exact .inr (List.mem_cons_of_mem _ after)
  | removedLast object front previous entry found =>
    refine formed.entries (by simp) fun other member => ?_
    rw [List.mem_append, List.mem_singleton] at member
    rcases member with before | rfl
    · exact .inl (List.mem_append_left _ before)
    · have kept := @Doc.WellFormed.entry _ _ _ formed previous (by simp)
      have gone := @Doc.WellFormed.entry _ _ _ formed entry (by simp)
      exact .inr ⟨⟨kept.1.lead, kept.1.trail.append gone.1.trail, kept.1.key, kept.1.keyed⟩,
        kept.2⟩
  | removedOnly object entry found =>
    have own := (@Doc.WellFormed.entry _ _ _ formed entry (by simp)).1
    refine .container object _ [] (own.lead.append own.trail) (fun nonempty => absurd rfl nonempty)
      ?_ ?_
    · intro other member
      cases member
    · intro other member
      cases member
  | inserted front back entry new found =>
    refine formed.entries (by simp) fun other member => ?_
    rw [List.mem_append, List.mem_cons] at member
    rcases member with before | rfl | after
    · exact .inl (List.mem_append_left _ before)
    · have own := (@Doc.WellFormed.entry _ _ _ formed entry (by simp)).1
      refine .inr ⟨⟨own.lead, Blank.nil, ?_, rfl⟩, newFormed new rfl⟩
      intro key written
      cases written
    · exact .inl (List.mem_append_right _ after)
  | appended object front last key new spelled found =>
    refine formed.entries (by simp) fun other member => ?_
    have own := @Doc.WellFormed.entry _ _ _ formed last (by simp)
    rw [List.mem_append, List.mem_cons, List.mem_singleton] at member
    rcases member with before | rfl | rfl
    · exact .inl (List.mem_append_left _ before)
    · exact .inr ⟨⟨own.1.lead, Blank.nil, own.1.key, own.1.keyed⟩, own.2⟩
    · exact .inr ⟨spelled.laid_entry own.1.lead own.1.trail, newFormed new rfl⟩
  | first object inner indent key new spelled blank found =>
    cases formed with
    | container _ _ _ innerBlank _ _ _ =>
      refine .container object [] _ Blank.nil (fun _ => rfl) ?_ ?_
      · intro other member
        obtain rfl := List.mem_singleton.mp member
        exact spelled.laid_entry (innerBlank.append blank) innerBlank
      · intro other member
        obtain rfl := List.mem_singleton.mp member
        exact newFormed new rfl

/-- An edit of a document gives a document. -/
theorem Edited.wellFormed {change : Change Doc} {tokens : List Text} {doc result : Doc}
    (edited : Edited decode change tokens doc result) (formed : doc.WellFormed)
    (newFormed : ∀ new, change.new? = some new → new.WellFormed) : result.WellFormed := by
  induction edited with
  | whole doc new given => exact newFormed new given
  | child token doc result edited => exact edited.wellFormed formed newFormed
  | inside token rest more object inner front back entry value found edited ih =>
    exact formed.replace_value (ih (formed.entry (by simp)).2)

/-! Positions -/

theorem findIdx?_memberValues (entries : List (Entry Doc)) (token : Text) :
    (memberValues decode entries).findIdx? (fun member => member.1 == token) =
      entries.findIdx? fun entry => entry.name decode == token := by
  rw [memberValues_eq, List.findIdx?_map]
  rfl

/-- A position among the entries of an object is that of their key. -/
theorem findIdx?_of_slot {front back : List (Entry Doc)} {entry : Entry Doc} {token : Text}
    {isAdd : Bool} (found : slot decode true (front ++ entry :: back) token isAdd =
      some front.length) :
    (front ++ entry :: back).findIdx? (fun entry => entry.name decode == token) =
      some front.length ∧ entry.name decode = token := by
  rw [slot, if_pos rfl] at found
  split at found
  next index position =>
    obtain rfl := Option.some_inj.mp found
    refine ⟨position, ?_⟩
    have named := (List.findIdx?_eq_some_iff_getElem.mp position).2.1
    simpa using named
  · split at found
    · have lengths := Option.some_inj.mp found
      simp at lengths
    · cases found

/-- A position after the entries of an object is that of no key. -/
theorem findIdx?_of_slot_end {entries : List (Entry Doc)} {token : Text} {isAdd : Bool}
    (found : slot decode true entries token isAdd = some entries.length) :
    entries.findIdx? (fun entry => entry.name decode == token) = none := by
  rw [slot, if_pos rfl] at found
  split at found
  next index position =>
    obtain rfl := Option.some_inj.mp found
    obtain ⟨inside, _⟩ := List.findIdx?_eq_some_iff_getElem.mp position
    omega
  next none_ => exact none_

theorem resolveIndex_of_slot {entries : List (Entry Doc)} {token : Text} {isAdd : Bool}
    {index : Nat} (found : slot decode false entries token isAdd = some index) :
    resolveIndex token (elementValues decode entries).length isAdd = some index := by
  rw [elementValues_eq, List.length_map]
  exact found

/-- An element is put before another. -/
theorem insertIdx_append {α : Type} (front back : List α) (new : α) :
    (front ++ back).insertIdx front.length new = front ++ new :: back := by
  induction front with
  | nil => rfl
  | cons first rest ih =>
    rw [List.cons_append, List.length_cons, List.insertIdx_succ_cons, ih, List.cons_append]

theorem Doc.value_object (inner : Text) (entries : List (Entry Doc)) :
    (Doc.container true inner entries).value decode = .object (memberValues decode entries) := rfl

theorem Doc.value_array (inner : Text) (entries : List (Entry Doc)) :
    (Doc.container false inner entries).value decode = .array (elementValues decode entries) := rfl

/-- An edit of an entry is the change of the value that it is an entry of. -/
theorem ChildEdited.value {token : Text} {change : Change Doc} {doc result : Doc}
    (edited : ChildEdited decode token change doc result) :
    (doc.value decode).change (change.map (Doc.value decode)) token =
      some (result.value decode) := by
  cases edited with
  | replaced object inner front back entry new found =>
    cases object with
    | true =>
      obtain ⟨position, named⟩ := findIdx?_of_slot found
      simp only [Doc.value_object, Value.change, Change.map, findIdx?_memberValues, position]
      simp [memberValues_eq, ← named, Entry.name]
    | false =>
      have position := resolveIndex_of_slot found
      simp only [Doc.value_array, Value.change, Change.map, Change.isAdd, position]
      simp [elementValues_eq]
  | readded inner front back entry new found =>
    obtain ⟨position, named⟩ := findIdx?_of_slot found
    simp only [Doc.value_object, Value.change, Change.map, findIdx?_memberValues, position]
    simp [memberValues_eq, ← named, Entry.name]
  | removed object front back entry next found =>
    cases object with
    | true =>
      obtain ⟨position, named⟩ := findIdx?_of_slot found
      simp only [Doc.value_object, Value.change, Change.map, findIdx?_memberValues, position]
      simp [memberValues_eq, List.eraseIdx_append_of_length_le]
    | false =>
      have position := resolveIndex_of_slot found
      simp only [Doc.value_array, Value.change, Change.map, Change.isAdd, position]
      simp [elementValues_eq, List.eraseIdx_append_of_length_le]
  | removedLast object front previous entry found =>
    have split_ : front ++ [previous, entry] = (front ++ [previous]) ++ entry :: [] := by simp
    have length : front.length + 1 = (front ++ [previous]).length := by simp
    rw [split_, length] at found
    rw [split_]
    cases object with
    | true =>
      obtain ⟨position, named⟩ := findIdx?_of_slot found
      simp only [Doc.value_object, Value.change, Change.map, findIdx?_memberValues, position]
      simp [memberValues_eq, List.eraseIdx_append_of_length_le, Entry.name]
    | false =>
      have position := resolveIndex_of_slot found
      simp only [Doc.value_array, Value.change, Change.map, Change.isAdd, position]
      simp [elementValues_eq, List.eraseIdx_append_of_length_le]
  | removedOnly object entry found =>
    cases object with
    | true =>
      obtain ⟨position, named⟩ := @findIdx?_of_slot _ [] _ _ _ _ found
      rw [List.nil_append, List.length_nil] at position
      simp only [Doc.value_object, Value.change, Change.map, findIdx?_memberValues, position]
      simp [memberValues_eq]
    | false =>
      have position := resolveIndex_of_slot found
      simp only [Doc.value_array, Value.change, Change.map, Change.isAdd, position]
      simp [elementValues_eq]
  | inserted front back entry new found =>
    have position := resolveIndex_of_slot found
    simp only [Doc.value_array, Value.change, Change.map, Change.isAdd, position]
    have inserted := insertIdx_append (elementValues decode front)
      (elementValues decode (entry :: back)) (new.value decode)
    simpa [elementValues_eq] using inserted
  | appended object front last key new spelled found =>
    cases object with
    | true =>
      have position := @findIdx?_of_slot_end _ (front ++ [last]) _ _ (by simpa using found)
      simp only [Doc.value_object, Value.change, Change.map, findIdx?_memberValues, position]
      have named := @NewKey.name _ _ last.lead last.trail _ new spelled
      rw [Entry.name] at named
      simp [memberValues_eq, Entry.name, named]
    | false =>
      have position := resolveIndex_of_slot found
      have length : front.length + 1 = (elementValues decode (front ++ [last])).length := by
        simp [elementValues_eq]
      simp only [Doc.value_array, Value.change, Change.map, Change.isAdd, position]
      rw [length, List.insertIdx_length_self]
      simp [elementValues_eq]
  | first object inner indent key new spelled blank found =>
    cases object with
    | true =>
      simp [Doc.value, Value.change, Change.map, memberValues_eq, spelled.name]
    | false =>
      have position := resolveIndex_of_slot found
      simp only [Doc.value_array, Value.change, Change.map, Change.isAdd, position]
      simp [elementValues_eq]

/-- An edit of a document is the patch of its value. -/
theorem Edited.value {change : Change Doc} {tokens : List Text} {doc result : Doc}
    (edited : Edited decode change tokens doc result) :
    (doc.value decode).patch (change.map (Doc.value decode)) tokens =
      some (result.value decode) := by
  induction edited with
  | whole doc new given =>
    cases change with
    | add other | replace other =>
      obtain rfl := Option.some_inj.mp given
      rfl
    | remove => cases given
  | child token doc result edited =>
    rw [Value.patch.eq_def]
    exact (if_pos rfl).trans edited.value
  | inside token rest more object inner front back entry value found edited ih =>
    rw [Value.patch.eq_def]
    simp only [if_neg more]
    cases object with
    | true =>
      obtain ⟨position, named⟩ := findIdx?_of_slot found
      simp only [Doc.value_object, findIdx?_memberValues, position]
      simp [memberValues_eq, ih, ← named, Entry.name]
    | false =>
      have position := resolveIndex_of_slot found
      simp only [Doc.value_array, position]
      simp [elementValues_eq, ih]

/-- The edits of a patch are the patch of the value. -/
theorem EditedAll.value {steps : List (List Text × Change Doc)} {doc result : Doc}
    (edited : EditedAll decode steps doc result) :
    (doc.value decode).patchAll (steps.map fun step =>
      (step.1, step.2.map (Doc.value decode))) = some (result.value decode) := by
  induction edited with
  | nil doc => rfl
  | cons tokens change rest doc next result edited later ih =>
    rw [List.map_cons, Value.patchAll, edited.value, Option.bind_some, ih]

end Edits

end Codex.JsonDocument
