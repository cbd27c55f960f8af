import Codex.ApplyPatch.JsonEdit

/-!
# Nodes of JSON documents

The nodes that `json_edit.rs` reads are those of the one syntax tree of the text: their ranges are
the positions of the values, and their keys the decoded ones.
-/

namespace Codex.ApplyPatch.JsonEdit

open Codex.Text Codex.JsonDocument

/-- The offsets and lengths of the values of entries, the first of which is at an offset. -/
def valueSpans : Nat → List (Entry Doc) → List (Nat × Nat)
  | _, [] => []
  | offset, entry :: rest =>
      (offset + entry.lead.length + (printKey entry.key).length, entry.value.print.length) ::
        valueSpans (offset + (printEntry entry).length + 1) rest

/-- What is relied on of serde_json. The values that it reads are at their places in a well-formed
    document, keys are decoded, and a string that it writes is decoded to itself. -/
structure SerdeJson.Correct (serde : SerdeJson) (decode : Text → Text) : Prop where
  rawValue : ∀ source start len, serde.rawValue source = .ok (start, len) → ∃ lead,
    ∃ doc : Doc, ∃ trail, Blank lead ∧ Blank trail ∧ doc.WellFormed ∧ source = lead ++ doc.print ++ trail ∧
      start = lead.length ∧ len = doc.print.length
  elements : ∀ text spans, serde.elements text = .ok spans → ∃ inner entries,
    (Doc.container false inner entries).WellFormed ∧
      text = (Doc.container false inner entries).print ∧ spans = valueSpans 1 entries
  members : ∀ text members, serde.members text = .ok members → ∃ inner entries,
    (Doc.container true inner entries).WellFormed ∧
      text = (Doc.container true inner entries).print ∧
        members = (entries.map (Entry.name decode)).zip (valueSpans 1 entries)
  encodeString : ∀ key, isString (serde.encodeString key) = true ∧
    decode (serde.encodeString key) = key
  operations : ∀ payload operations, serde.operations payload = .ok operations →
    ∀ operation ∈ operations, ∀ value, operation.value = some value →
      ∃ doc : Doc, doc.WellFormed ∧ value = doc.print

mutual

/-- The node of a document at an offset. -/
def nodeOf (decode : Text → Text) : Nat → Doc → Node
  | offset, .scalar spelling => .mk offset (offset + spelling.length) none false
  | offset, .container object inner entries =>
      .mk offset (offset + (Doc.container object inner entries).print.length)
        (some (childrenOf decode (offset + 1) entries)) object

/-- The children of entries, the first of which is at an offset. -/
def childrenOf (decode : Text → Text) : Nat → List (Entry Doc) → List (NodeEntry Node)
  | _, [] => []
  | offset, entry :: rest =>
      childOf decode offset entry ::
        childrenOf decode (offset + (printEntry entry).length + 1) rest

def childOf (decode : Text → Text) : Nat → Entry Doc → NodeEntry Node
  | offset, ⟨lead, key, value, _⟩ =>
      ⟨key.map fun key => decode key.1, offset + lead.length,
        nodeOf decode (offset + lead.length + (printKey key).length) value⟩

end

section Nodes

variable {decode : Text → Text}

theorem childOf_eq (offset : Nat) (entry : Entry Doc) : childOf decode offset entry =
    ⟨entry.key.map fun key => decode key.1, offset + entry.lead.length,
      nodeOf decode (offset + entry.lead.length + (printKey entry.key).length) entry.value⟩ := by
  cases entry
  rfl

@[simp] theorem nodeOf_start (offset : Nat) (doc : Doc) :
    (nodeOf decode offset doc).start = offset := by
  cases doc <;> rfl

@[simp] theorem nodeOf_stop (offset : Nat) (doc : Doc) :
    (nodeOf decode offset doc).stop = offset + doc.print.length := by
  cases doc <;> rfl

theorem childrenOf_append (offset : Nat) (front back : List (Entry Doc)) :
    childrenOf decode offset (front ++ back) = childrenOf decode offset front ++
      childrenOf decode (offset + (printFront front).length) back := by
  induction front generalizing offset with
  | nil => rfl
  | cons entry rest ih =>
    have length : (printFront (entry :: rest)).length =
        (printEntry entry).length + 1 + (printFront rest).length := by
      rw [printFront, List.flatMap_cons, List.length_append, List.length_append,
        List.length_singleton, ← printFront]
    rw [List.cons_append, childrenOf, childrenOf, ih, length, List.cons_append]
    simp only [Nat.add_assoc]

@[simp] theorem length_childrenOf (offset : Nat) (entries : List (Entry Doc)) :
    (childrenOf decode offset entries).length = entries.length := by
  induction entries generalizing offset with
  | nil => rfl
  | cons entry rest ih => rw [childrenOf, List.length_cons, List.length_cons, ih]

/-- The child of an entry among others. -/
theorem entryAt_childrenOf (offset : Nat) (front : List (Entry Doc)) (entry : Entry Doc)
    (back : List (Entry Doc)) :
    entryAt (childrenOf decode offset (front ++ entry :: back)) front.length =
      childOf decode (offset + (printFront front).length) entry := by
  rw [entryAt, childrenOf_append, List.getD_eq_getElem?_getD,
    List.getElem?_append_right (by simp), length_childrenOf, Nat.sub_self]
  rfl

end Nodes

/-- A part of a text. -/
theorem slice_append (front part back : Text) :
    slice (front ++ part ++ back) front.length (front.length + part.length) = part := by
  rw [slice, List.append_assoc, List.drop_left, Nat.add_sub_cancel_left, List.take_left]

/-- Replacing a part of a text. -/
theorem replaceRange_append (front part back replacement : Text) :
    replaceRange (front ++ part ++ back) (front.length, front.length + part.length) replacement =
      front ++ replacement ++ back := by
  have whole : front ++ part ++ back = front ++ (part ++ back) := List.append_assoc _ _ _
  rw [replaceRange, ← List.length_append, List.drop_left, whole, List.take_left]

/-- The first occurrence of a character in a part of a text. -/
theorem findIn_append {front before after back : Text} {c : Char} (absent : c ∉ before) :
    findIn (front ++ (before ++ c :: after) ++ back) front.length
        (front.length + (before ++ c :: after).length) c =
      some (front.length + before.length) := by
  rw [findIn, slice_append]
  have found : (before ++ c :: after).idxOf? c = some before.length := by
    induction before with
    | nil => simp [List.idxOf?_cons]
    | cons d rest ih =>
      rw [List.mem_cons, not_or] at absent
      rw [List.cons_append, List.idxOf?_cons, ih absent.2]
      simp [Ne.symm absent.1]
  rw [found]
  rfl

section Reading

variable {serde : SerdeJson} {decode : Text → Text} {source : Text}

/-- What reading the value of each entry gives. -/
def Reads (decode : Text → Text) (source : Text) (read : Nat → Nat → Except JsonError Node)
    (doc : Doc) : Prop :=
  ∀ front back value, source = front ++ doc.print ++ back →
    read front.length doc.print.length = .ok value → value = nodeOf decode front.length doc

/-- The text before the value of the first entry, and after it. -/
theorem printEntries_around (entry : Entry Doc) (rest : List (Entry Doc)) (before after : Text) :
    before ++ printEntries (entry :: rest) ++ after =
      (before ++ entry.lead ++ printKey entry.key) ++ entry.value.print ++
        (entry.trail ++ printBack rest ++ after) := by
  rw [printEntries_cons, printEntry_eq]
  simp only [List.append_assoc]

theorem printEntries_next (entry second : Entry Doc) (rest : List (Entry Doc))
    (before after : Text) : before ++ printEntries (entry :: second :: rest) ++ after =
      (before ++ printEntry entry ++ [',']) ++ printEntries (second :: rest) ++ after := by
  rw [printEntries_cons_cons]
  simp

theorem visitSeq_spec {read : Nat → Nat → Except JsonError Node} {container offset : Nat}
    {before after : Text} {entries : List (Entry Doc)} {result : List (NodeEntry Node)}
    (whole : source = before ++ printEntries entries ++ after)
    (place : container + offset = before.length) (laid : ∀ entry ∈ entries, entry.Laid false)
    (reads : ∀ entry ∈ entries, Reads decode source read entry.value)
    (visited : visitSeq read container (valueSpans offset entries) = .ok result) :
    result = childrenOf decode before.length entries := by
  induction entries generalizing before offset result with
  | nil => exact (Except.ok.inj visited).symm
  | cons entry rest ih =>
    rw [valueSpans, visitSeq] at visited
    have at_ : container + (offset + entry.lead.length + (printKey entry.key).length) =
        (before ++ entry.lead ++ printKey entry.key).length := by
      simp only [List.length_append]
      omega
    rw [at_] at visited
    split at visited
    · cases visited
    next value found =>
      obtain rfl := reads entry List.mem_cons_self _ _ value
        (whole.trans (printEntries_around entry rest before after)) found
      have key : entry.key = none := by
        simpa using (laid entry List.mem_cons_self).keyed
      have first : (⟨none, (nodeOf decode (before ++ entry.lead ++ printKey entry.key).length
          entry.value).start, nodeOf decode (before ++ entry.lead ++ printKey entry.key).length
            entry.value⟩ : NodeEntry Node) = childOf decode before.length entry := by
        rw [childOf_eq, nodeOf_start, key]
        simp [printKey]
      split at visited
      · cases visited
      next others later =>
        obtain rfl := Except.ok.inj visited
        rw [first, childrenOf]
        congr 1
        cases rest with
        | nil => exact (Except.ok.inj later).symm
        | cons second rest =>
          have next_ := @ih (offset + (printEntry entry).length + 1)
            (before ++ printEntry entry ++ [',']) others
            (whole.trans (printEntries_next entry second rest before after))
            (by simp only [List.length_append, List.length_singleton]; omega)
            (fun entry member => laid entry (List.mem_cons_of_mem _ member))
            (fun entry member => reads entry (List.mem_cons_of_mem _ member)) later
          rw [next_]
          simp only [List.length_append, List.length_singleton]

/-- A key starts at the first quote after the previous value. -/
theorem findIn_key {before after : Text} {entry : Entry Doc} {rest : List (Entry Doc)}
    {previousEnd : Nat} (whole : source = before ++ printEntries (entry :: rest) ++ after)
    (inside : previousEnd ≤ before.length) (clean : '"' ∉ before.drop previousEnd)
    (laid : entry.Laid true) :
    findIn source previousEnd (before ++ entry.lead ++ printKey entry.key).length '"' =
      some (before.length + entry.lead.length) := by
  obtain ⟨⟨token, colon⟩, key⟩ := Option.isSome_iff_exists.mp laid.keyed
  have isString_ := (laid.key _ key).1
  cases token with
  | nil => cases isString_
  | cons c body =>
    rw [isString, Bool.and_eq_true, beq_iff_eq] at isString_
    obtain ⟨rfl, _⟩ := isString_
    have absent : '"' ∉ before.drop previousEnd ++ entry.lead := by
      rw [List.mem_append, not_or]
      refine ⟨clean, fun member => ?_⟩
      exact absurd (laid.lead _ member) (by decide)
    have kept : (before.take previousEnd).length = previousEnd := List.length_take_of_le inside
    have parts : source = before.take previousEnd ++
        ((before.drop previousEnd ++ entry.lead) ++ '"' :: (body ++ colon)) ++
          (entry.value.print ++ (entry.trail ++ printBack rest ++ after)) := by
      have cut : before = before.take previousEnd ++ before.drop previousEnd :=
        (List.take_append_drop _ _).symm
      rw [whole, printEntries_around, key, printKey]
      conv_lhs => rw [cut]
      simp only [List.append_assoc, List.cons_append]
    have found := @findIn_append (before.take previousEnd) _ (body ++ colon)
      (entry.value.print ++ (entry.trail ++ printBack rest ++ after)) '"' absent
    rw [← parts, kept] at found
    have stop : previousEnd + ((before.drop previousEnd ++ entry.lead) ++
        '"' :: (body ++ colon)).length = (before ++ entry.lead ++ printKey entry.key).length := by
      rw [key, printKey]
      simp only [List.length_append, List.length_cons, List.length_drop]
      omega
    rw [stop] at found
    rw [found]
    simp only [List.length_append, List.length_drop, Option.some.injEq]
    omega

theorem visitMap_spec {read : Nat → Nat → Except JsonError Node} {container offset : Nat}
    {keys : List Text} {previousEnd : Nat} {before after : Text} {entries : List (Entry Doc)}
    {result : List (NodeEntry Node)} (whole : source = before ++ printEntries entries ++ after)
    (place : container + offset = before.length) (inside : previousEnd ≤ before.length)
    (clean : '"' ∉ before.drop previousEnd) (laid : ∀ entry ∈ entries, entry.Laid true)
    (reads : ∀ entry ∈ entries, Reads decode source read entry.value)
    (visited : visitMap source read container keys previousEnd
      ((entries.map (Entry.name decode)).zip (valueSpans offset entries)) = .ok result) :
    result = childrenOf decode before.length entries := by
  induction entries generalizing before offset keys previousEnd result with
  | nil => exact (Except.ok.inj visited).symm
  | cons entry rest ih =>
    rw [List.map_cons, valueSpans, List.zip_cons_cons, visitMap] at visited
    have at_ : container + (offset + entry.lead.length + (printKey entry.key).length) =
        (before ++ entry.lead ++ printKey entry.key).length := by
      simp only [List.length_append]
      omega
    rw [at_] at visited
    have own := laid entry List.mem_cons_self
    split at visited
    · cases visited
    split at visited
    · cases visited
    next value found =>
      obtain rfl := reads entry List.mem_cons_self _ _ value
        (whole.trans (printEntries_around entry rest before after)) found
      rw [nodeOf_start, findIn_key whole inside clean own] at visited
      simp only at visited
      split at visited
      · cases visited
      next others later =>
        obtain rfl := Except.ok.inj visited
        have first : (⟨some (entry.name decode), before.length + entry.lead.length,
            nodeOf decode (before ++ entry.lead ++ printKey entry.key).length
              entry.value⟩ : NodeEntry Node) = childOf decode before.length entry := by
          obtain ⟨key, hasKey⟩ := Option.isSome_iff_exists.mp own.keyed
          rw [childOf_eq, Entry.name, hasKey]
          simp [Nat.add_assoc]
        rw [first, childrenOf]
        congr 1
        cases rest with
        | nil => exact (Except.ok.inj later).symm
        | cons second rest =>
          have between : (before ++ printEntry entry ++ [',']).drop
              (nodeOf decode (before ++ entry.lead ++ printKey entry.key).length
                entry.value).stop = entry.trail ++ [','] := by
            rw [nodeOf_stop, printEntry_eq, ← List.length_append]
            simp only [← List.append_assoc]
            rw [List.append_assoc (before ++ entry.lead ++ printKey entry.key ++
              entry.value.print), List.drop_left]
          have next_ := @ih (offset + (printEntry entry).length + 1) (entry.name decode :: keys)
            _ (before ++ printEntry entry ++ [',']) others
            (whole.trans (printEntries_next entry second rest before after))
            (by simp only [List.length_append, List.length_singleton]; omega)
            (by
              rw [nodeOf_stop, printEntry_eq]
              simp only [List.length_append]
              omega)
            (by
              rw [between, List.mem_append, not_or]
              refine ⟨fun member => ?_, by decide⟩
              exact absurd (own.trail _ member) (by decide))
            (fun entry member => laid entry (List.mem_cons_of_mem _ member))
            (fun entry member => reads entry (List.mem_cons_of_mem _ member)) later
          rw [next_]
          simp only [List.length_append, List.length_singleton]

/-- The node that is read for a value is that of its document. -/
theorem node_spec (correct : serde.Correct decode) {levels : Nat} {doc : Doc} {front back : Text}
    {value : Node} (formed : doc.WellFormed) (whole : source = front ++ doc.print ++ back)
    (found : node serde source levels front.length doc.print.length = .ok value) :
    value = nodeOf decode front.length doc := by
  induction levels generalizing doc front back value with
  | zero => cases found
  | succ levels ih =>
    have text : slice source front.length (front.length + doc.print.length) = doc.print := by
      rw [whole, slice_append]
    rw [node, text] at found
    have reads : ∀ {object inner entries}, doc = .container object inner entries →
        ∀ entry ∈ entries, Reads decode source (node serde source levels) entry.value := by
      rintro object inner entries rfl entry member front back value whole found
      cases formed with
      | container _ _ _ _ _ _ values => exact ih (values entry member) whole found
    cases formed with
    | scalar spelling token =>
      have notOpening : ∀ {c : Char}, (c = '{' ∨ c = '[') → spelling.head? ≠ some c := by
        intro c isOpening head
        cases spelling with
        | nil => cases head
        | cons d rest =>
          obtain rfl := Option.some_inj.mp head
          rcases token with isString_ | ⟨_, bare⟩
          · rw [isString, Bool.and_eq_true, beq_iff_eq] at isString_
            rw [isString_.1] at isOpening
            exact absurd isOpening (by decide)
          · have own := bare _ List.mem_cons_self
            rcases isOpening with rfl | rfl <;> exact absurd own (by decide)
      split at found
      next brace => exact absurd brace (notOpening (.inl rfl))
      · split at found
        next bracket => exact absurd bracket (notOpening (.inr rfl))
        · exact (Except.ok.inj found).symm
    | container object inner entries blank filled laid values =>
      have formed : (Doc.container object inner entries).WellFormed :=
        .container object inner entries blank filled laid values
      have inside : entries ≠ [] → source = (front ++ [opening object]) ++ printEntries entries ++
          (closing object :: back) := by
        intro nonempty
        rw [whole, Doc.print, filled nonempty]
        simp
      have place : (front ++ [opening object]).length = front.length + 1 := by simp
      -- the container that serde_json reads is this one
      have same : ∀ {other otherInner others}, (Doc.container other otherInner others).WellFormed →
          (Doc.container object inner entries).print =
            (Doc.container other otherInner others).print → entries = others := by
        intro other otherInner others otherFormed equal
        have ends : Ends [] := fun c head => by cases head
        have unique := Doc.print_append_inj formed otherFormed ends ends
          (by rw [List.append_nil, List.append_nil]; exact equal)
        exact (Doc.container.inj unique.1).2.2
      have head : (Doc.container object inner entries).print.head? = some (opening object) := rfl
      cases object with
      | true =>
        split at found
        · split at found
          · cases found
          next members read =>
            obtain ⟨otherInner, others, otherFormed, equal, rfl⟩ := correct.members _ _ read
            obtain rfl := same otherFormed equal
            obtain ⟨children, visited, rfl⟩ := Except.map_eq_ok found
            rw [nodeOf]
            congr 2
            cases entries with
            | nil => exact (Except.ok.inj visited).symm
            | cons entry rest =>
              rw [← place]
              exact visitMap_spec (inside (List.cons_ne_nil _ _)) place.symm place.symm.le
                (by rw [← place, List.drop_length]; exact List.not_mem_nil) laid (reads rfl) visited
        next brace => exact absurd head brace
      | false =>
        split at found
        next brace => exact absurd (head.symm.trans brace) (by decide)
        · split at found
          · split at found
            · cases found
            next elements read =>
              obtain ⟨otherInner, others, otherFormed, equal, rfl⟩ := correct.elements _ _ read
              obtain rfl := same otherFormed equal
              obtain ⟨children, visited, rfl⟩ := Except.map_eq_ok found
              rw [nodeOf]
              congr 2
              cases entries with
              | nil => exact (Except.ok.inj visited).symm
              | cons entry rest =>
                rw [← place]
                exact visitSeq_spec (inside (List.cons_ne_nil _ _)) place.symm laid (reads rfl)
                  visited
          next bracket => exact absurd head bracket

/-- What reading a source gives: the nodes of its document. -/
theorem parse_spec (correct : serde.Correct decode) {root : Node}
    (found : parse serde source = .ok root) : ∃ lead, ∃ doc : Doc, ∃ trail, Blank lead ∧
      Blank trail ∧ doc.WellFormed ∧ source = lead ++ doc.print ++ trail ∧
        root = nodeOf decode lead.length doc := by
  unfold parse at found
  split at found
  · cases found
  split at found
  · cases found
  next start len read =>
    obtain ⟨lead, doc, trail, leadBlank, trailBlank, formed, whole, rfl, rfl⟩ :=
      correct.rawValue _ _ _ read
    exact ⟨lead, doc, trail, leadBlank, trailBlank, formed, whole,
      node_spec correct formed whole found⟩

end Reading

end Codex.ApplyPatch.JsonEdit
