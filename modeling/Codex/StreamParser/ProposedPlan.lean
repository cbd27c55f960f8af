import Codex.StreamParser.TaggedLineParser

/-!
# Proposed plans

`utils/stream-parser/src/proposed_plan.rs`: the blocks between `<proposed_plan>` lines of an
assistant text, the text outside them, and the text of the last one.
-/

namespace Codex.StreamParser

open Codex.Text

def OPEN_TAG : Text := "<proposed_plan>".toList
def CLOSE_TAG : Text := "</proposed_plan>".toList

inductive PlanTag where
  | proposedPlan
  deriving DecidableEq, Repr

/-- `ProposedPlanSegment` (`proposed_plan.rs:16`). -/
inductive ProposedPlanSegment where
  | normal (text : Text)
  | proposedPlanStart
  | proposedPlanDelta (text : Text)
  | proposedPlanEnd
  deriving DecidableEq, Repr

/-- `StreamTextChunk` (`stream_text.rs:3`). -/
structure StreamTextChunk (α : Type) where
  visibleText : Text := []
  extracted : List α := []

/-- The specs of `ProposedPlanParser::new` (`proposed_plan.rs:33`). -/
def planSpecs : List (TagSpec PlanTag) := [⟨OPEN_TAG, CLOSE_TAG, .proposedPlan⟩]

def mapSegment : TaggedLineSegment PlanTag → ProposedPlanSegment
  | .normal text => .normal text
  | .tagStart .proposedPlan => .proposedPlanStart
  | .tagDelta .proposedPlan text => .proposedPlanDelta text
  | .tagEnd .proposedPlan => .proposedPlanEnd

/-- The text of a segment that is visible. -/
def ProposedPlanSegment.visible : ProposedPlanSegment → Text
  | normal text => text
  | _ => []

/-- `map_segments` (`proposed_plan.rs:63`). -/
def mapSegments (segments : List (TaggedLineSegment PlanTag)) :
    StreamTextChunk ProposedPlanSegment :=
  segments.foldl (fun out segment =>
    { visibleText := out.visibleText ++ (mapSegment segment).visible
      extracted := out.extracted ++ [mapSegment segment] }) {}

/-- `strip_proposed_plan_blocks` (`proposed_plan.rs:86`). -/
def stripProposedPlanBlocks (text : Text) : Text :=
  let pushed := TaggedLineParser.parse planSpecs text {}
  (mapSegments pushed.1).visibleText ++ (mapSegments (pushed.2.finish planSpecs).1).visibleText

/-- The loop of `extract_proposed_plan_text`: whether a block was seen, and the text of the last
    one. -/
def extractSegment (state : Bool × Text) : ProposedPlanSegment → Bool × Text
  | .proposedPlanStart => (true, [])
  | .proposedPlanDelta delta => (state.1, state.2 ++ delta)
  | .proposedPlanEnd => state
  | .normal _ => state

/-- `extract_proposed_plan_text` (`proposed_plan.rs:94`). -/
def extractProposedPlanText (text : Text) : Option Text :=
  let pushed := TaggedLineParser.parse planSpecs text {}
  let (sawPlanBlock, planText) := ((mapSegments pushed.1).extracted ++
    (mapSegments (pushed.2.finish planSpecs).1).extracted).foldl extractSegment (false, [])
  if sawPlanBlock then some planText else none

section Segments

variable {T : Type}

/-- The text of a segment. -/
def TaggedLineSegment.text : TaggedLineSegment T → Text
  | normal text => text
  | tagDelta _ text => text
  | _ => []

/-- The text outside the blocks. -/
def outsideText (segments : List (TaggedLineSegment T)) : Text :=
  segments.flatMap (fun segment =>
    match segment with
    | .normal text => text
    | _ => [])

/-- The text up to the end of the block. -/
def insideText : List (TaggedLineSegment T) → Text
  | [] => []
  | .tagDelta _ text :: rest => text ++ insideText rest
  | .tagEnd _ :: _ => []
  | _ :: rest => insideText rest

/-- The texts of the blocks. -/
def blockTexts : List (TaggedLineSegment T) → List Text
  | [] => []
  | .tagStart _ :: rest => insideText rest :: blockTexts rest
  | _ :: rest => blockTexts rest

/-- Blocks start outside blocks only, contain text of their tag only, and end once. -/
def Nested : Option T → List (Atom T) → Prop
  | none, [] => True
  | none, .plain _ :: rest => Nested none rest
  | none, .start tag :: rest => Nested (some tag) rest
  | some tag, .inside other _ :: rest => other = tag ∧ Nested (some tag) rest
  | some tag, .stop other :: rest => other = tag ∧ Nested none rest
  | _, _ => False

end Segments

/-- The lines that are not recognised as tags. -/
def plainLines {T : Type} [DecidableEq T] (specs : List (TagSpec T)) (active : Option T) :
    List Text → List Text
  | [] => []
  | line :: lines =>
      match lineKind specs active line with
      | .opens tag => plainLines specs (some tag) lines
      | .closes _ => plainLines specs none lines
      | .text => line :: plainLines specs active lines

section Atoms

variable {T : Type}

def Atom.char? : Atom T → Option Char
  | plain c => some c
  | inside _ c => some c
  | _ => none

def Atom.outside? : Atom T → Option Char
  | plain c => some c
  | _ => none

theorem text_eq_atoms (segments : List (TaggedLineSegment T)) :
    segments.flatMap TaggedLineSegment.text = (atoms segments).filterMap Atom.char? := by
  induction segments with
  | nil => rfl
  | cons segment segments ih =>
    rw [List.flatMap_cons, ih, atoms_cons, List.filterMap_append]
    cases segment <;>
      simp [TaggedLineSegment.text, TaggedLineSegment.atoms, Atom.char?, List.filterMap_map,
        Function.comp_def]

theorem outsideText_eq_atoms (segments : List (TaggedLineSegment T)) :
    outsideText segments = (atoms segments).filterMap Atom.outside? := by
  unfold outsideText
  induction segments with
  | nil => rfl
  | cons segment segments ih =>
    rw [List.flatMap_cons, ih, atoms_cons, List.filterMap_append]
    cases segment <;>
      simp [TaggedLineSegment.atoms, Atom.outside?, List.filterMap_map, Function.comp_def]

/-- The loop of `extract_proposed_plan_text` at one atom. -/
def extractAtom (state : Bool × Text) : Atom T → Bool × Text
  | .start _ => (true, [])
  | .inside _ c => (state.1, state.2 ++ [c])
  | .stop _ => state
  | .plain _ => state

theorem foldl_extractAtom_inside (tag : T) (text : Text) (state : Bool × Text) :
    (text.map (Atom.inside tag)).foldl extractAtom state = (state.1, state.2 ++ text) := by
  induction text generalizing state with
  | nil => simp
  | cons c text ih => simp [ih, extractAtom]

theorem foldl_extractAtom_plain (text : Text) (state : Bool × Text) :
    (text.map (Atom.plain : Char → Atom T)).foldl extractAtom state = state := by
  induction text generalizing state with
  | nil => rfl
  | cons c text ih => simp [ih, extractAtom]

end Atoms

theorem foldl_extractSegment (segments : List (TaggedLineSegment PlanTag)) (state : Bool × Text) :
    (segments.map mapSegment).foldl extractSegment state =
      (atoms segments).foldl extractAtom state := by
  induction segments generalizing state with
  | nil => rfl
  | cons segment segments ih =>
    rw [List.map_cons, List.foldl_cons, ih, atoms_cons, List.foldl_append]
    congr 1
    cases segment with
    | normal text => exact (foldl_extractAtom_plain text state).symm
    | tagStart tag => rfl
    | tagDelta tag text => exact (foldl_extractAtom_inside tag text state).symm
    | tagEnd tag => rfl

theorem mapSegments_eq (segments : List (TaggedLineSegment PlanTag)) :
    (mapSegments segments).visibleText = outsideText segments ∧
      (mapSegments segments).extracted = segments.map mapSegment := by
  unfold mapSegments outsideText
  induction segments using List.reverseRecOn with
  | nil => exact ⟨rfl, rfl⟩
  | append_singleton segments segment ih =>
    rw [List.foldl_append, List.foldl_cons, List.foldl_nil, ih.1, ih.2, List.flatMap_append,
      List.map_append]
    refine ⟨?_, rfl⟩
    cases segment <;> simp [mapSegment, ProposedPlanSegment.visible]

section Reference

variable {T : Type} [DecidableEq T]

theorem text_referenceFrom (specs : List (TagSpec T)) (active : Option T) (lines : List Text) :
    (referenceFrom specs active lines).flatMap TaggedLineSegment.text =
      (plainLines specs active lines).flatten := by
  induction lines generalizing active with
  | nil => cases active <;> rfl
  | cons line lines ih =>
    unfold referenceFrom plainLines
    cases lineKind specs active line with
    | opens tag => simp [ih, TaggedLineSegment.text]
    | closes tag => simp [ih, TaggedLineSegment.text]
    | text => cases active <;> simp [ih, textSegment, TaggedLineSegment.text]

omit [DecidableEq T] in
theorem nested_text (active : Option T) (text : Text) (rest : List (Atom T)) :
    Nested active (textAtoms active text ++ rest) ↔ Nested active rest := by
  induction text with
  | nil => simp
  | cons c text ih =>
    rw [← ih]
    cases active <;> simp [textAtoms, textSegment, TaggedLineSegment.atoms, Nested]

theorem lineKind_opens {specs : List (TagSpec T)} {active : Option T} {line : Text} {tag : T}
    (opens : lineKind specs active line = .opens tag) : active = none := by
  cases active with
  | none => rfl
  | some other =>
    unfold lineKind at opens
    dsimp only at opens
    split at opens <;> cases opens

theorem lineKind_closes {specs : List (TagSpec T)} {active : Option T} {line : Text} {tag : T}
    (closes : lineKind specs active line = .closes tag) : active = some tag := by
  unfold lineKind at closes
  cases active with
  | none => cases isOpen : TaggedLineParser.matchOpen specs (trim line) <;> simp [isOpen] at closes
  | some other =>
    dsimp only at closes
    split at closes <;> cases closes
    rfl

theorem nested_referenceFrom (specs : List (TagSpec T)) (active : Option T) (lines : List Text) :
    Nested active (atoms (referenceFrom specs active lines)) := by
  induction lines generalizing active with
  | nil => cases active <;> simp [referenceFrom, TaggedLineSegment.atoms, Nested]
  | cons line lines ih =>
    unfold referenceFrom
    cases kind : lineKind specs active line with
    | opens tag =>
      obtain rfl := lineKind_opens kind
      exact ih (some tag)
    | closes tag =>
      obtain rfl := lineKind_closes kind
      exact ⟨rfl, ih none⟩
    | text => exact (nested_text active line _).mpr (ih active)

/-- The loop of `extract_proposed_plan_text` ends with the text of the last block, or goes on with
    the block that is open. -/
theorem extract_referenceFrom (specs : List (TagSpec T)) (active : Option T) (lines : List Text)
    (saw : Bool) (planText : Text) :
    (atoms (referenceFrom specs active lines)).foldl extractAtom (saw, planText) =
      (blockTexts (referenceFrom specs active lines)).getLast?.elim
        (saw, planText ++ if active.isSome then insideText (referenceFrom specs active lines) else [])
        (fun text => (true, text)) := by
  induction lines generalizing active saw planText with
  | nil => cases active <;> simp [referenceFrom, TaggedLineSegment.atoms, blockTexts, insideText,
      extractAtom]
  | cons line lines ih =>
    unfold referenceFrom
    cases kind : lineKind specs active line with
    | opens tag =>
      obtain rfl := lineKind_opens kind
      have rest := ih (some tag) true []
      simp only [atoms_cons, TaggedLineSegment.atoms, List.singleton_append, List.foldl_cons,
        extractAtom, rest, blockTexts, List.getLast?_cons, Option.elim_some, Option.isSome_some,
        if_true, List.nil_append]
      cases (blockTexts (referenceFrom specs (some tag) lines)).getLast? <;> rfl
    | closes tag =>
      obtain rfl := lineKind_closes kind
      have rest := ih none saw planText
      simpa [TaggedLineSegment.atoms, blockTexts, insideText, extractAtom] using rest
    | text =>
      cases active with
      | none =>
        have rest := ih none saw planText
        rw [atoms_cons, List.foldl_append]
        change (atoms _).foldl extractAtom ((line.map Atom.plain).foldl extractAtom _) = _
        rw [foldl_extractAtom_plain, rest]
        rfl
      | some tag =>
        have rest := ih (some tag) saw (planText ++ line)
        rw [atoms_cons, List.foldl_append]
        change (atoms _).foldl extractAtom ((line.map (Atom.inside tag)).foldl extractAtom _) = _
        rw [foldl_extractAtom_inside, rest]
        simp [textSegment, blockTexts, insideText]

end Reference

/-- A text that comes in any pieces gives, once adjacent segments of a kind are merged, what the
    reference gives line by line. Only the recognised tag lines are missing from its text, every
    block that starts ends once, and the helpers return the text outside the blocks and the text of
    the last block of the reference. -/
theorem streamed_plan_eq_reference {T : Type} [DecidableEq T] (specs : List (TagSpec T))
    (deltas : List Text) :
    mergeSegments (TaggedLineParser.parseAll specs deltas {}) =
      mergeSegments (reference specs deltas.flatten) ∧
    (TaggedLineParser.parseAll specs deltas {}).flatMap TaggedLineSegment.text =
      (plainLines specs none (splitInclusive deltas.flatten)).flatten ∧
    Nested none (atoms (TaggedLineParser.parseAll specs deltas {})) ∧
    ∀ text, stripProposedPlanBlocks text = outsideText (reference planSpecs text) ∧
      extractProposedPlanText text = (blockTexts (reference planSpecs text)).getLast? := by
  have same := TaggedLineParser.atoms_parseAll specs deltas
  refine ⟨mergeSegments_congr same, ?_, ?_, ?_⟩
  · rw [text_eq_atoms, same, ← text_eq_atoms]
    exact text_referenceFrom specs none _
  · rw [same]
    exact nested_referenceFrom specs none _
  intro text
  have whole : atoms ((TaggedLineParser.parse planSpecs text {}).1 ++
      ((TaggedLineParser.parse planSpecs text {}).2.finish planSpecs).1) =
      atoms (reference planSpecs text) := by
    have single := TaggedLineParser.atoms_parseAll planSpecs [text]
    rw [List.flatten_singleton] at single
    exact single
  refine ⟨?_, ?_⟩
  · rw [outsideText_eq_atoms, ← whole, ← outsideText_eq_atoms]
    unfold stripProposedPlanBlocks
    dsimp only
    rw [(mapSegments_eq _).1, (mapSegments_eq _).1, outsideText, outsideText, outsideText,
      List.flatMap_append]
  · unfold extractProposedPlanText
    dsimp only
    rw [(mapSegments_eq _).2, (mapSegments_eq _).2, ← List.map_append, foldl_extractSegment,
      whole, reference, extract_referenceFrom]
    cases (blockTexts (referenceFrom planSpecs none (splitInclusive text))).getLast? <;> rfl

/-- A plan whose tag comes in two pieces, with a line that only looks like one. -/
example : mergeSegments (TaggedLineParser.parseAll planSpecs
    ["a\n <prop".toList, "osed_plan> \nb <x>\n</proposed".toList, "_plan>\n<prop".toList] {}) =
    [.normal "a\n".toList, .tagStart .proposedPlan, .tagDelta .proposedPlan "b <x>\n".toList,
      .tagEnd .proposedPlan, .normal "<prop".toList] := by
  decide

end Codex.StreamParser
