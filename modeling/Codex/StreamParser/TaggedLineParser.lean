import Codex.Lib.Text

/-!
# Tag blocks of streamed text

`utils/stream-parser/src/tagged_line_parser.rs`: lines that are a tag open and close blocks. The
parser gets the text in pieces and emits each line as soon as it cannot be a tag any more.
-/

namespace Codex.StreamParser

open Codex.Text

/-- `TagSpec` (`tagged_line_parser.rs:7`). -/
structure TagSpec (T : Type) where
  opener : Text
  closer : Text
  tag : T
  deriving DecidableEq, Repr

/-- `TaggedLineSegment` (`tagged_line_parser.rs:14`). -/
inductive TaggedLineSegment (T : Type) where
  | normal (text : Text)
  | tagStart (tag : T)
  | tagDelta (tag : T) (text : Text)
  | tagEnd (tag : T)
  deriving DecidableEq, Repr

/-- `TaggedLineParser` (`tagged_line_parser.rs:23`), apart from its specs, which never change.
    `slugStart` is an offset in bytes. -/
structure TaggedLineParser (T : Type) where
  activeTag : Option T := none
  detectTag : Bool := true
  lineBuffer : Text := []
  slugStart : Nat := 0
  deriving DecidableEq, Repr

variable {T : Type} [DecidableEq T]

/-- `push_segment` (`tagged_line_parser.rs:190`): adjacent text of one kind is merged. -/
def pushSegment (segments : List (TaggedLineSegment T)) (segment : TaggedLineSegment T) :
    List (TaggedLineSegment T) :=
  match segment with
  | .normal delta =>
      if delta.isEmpty then segments
      else
        match segments.getLast? with
        | some (.normal existing) => segments.dropLast ++ [.normal (existing ++ delta)]
        | _ => segments ++ [.normal delta]
  | .tagDelta tag delta =>
      if delta.isEmpty then segments
      else
        match segments.getLast? with
        | some (.tagDelta existingTag existing) =>
            if existingTag = tag then segments.dropLast ++ [.tagDelta tag (existing ++ delta)]
            else segments ++ [.tagDelta tag delta]
        | _ => segments ++ [.tagDelta tag delta]
  | .tagStart tag => segments ++ [.tagStart tag]
  | .tagEnd tag => segments ++ [.tagEnd tag]

/-- Text outside a block, or in the block of a tag. -/
def textSegment (activeTag : Option T) (text : Text) : TaggedLineSegment T :=
  match activeTag with
  | some tag => .tagDelta tag text
  | none => .normal text

namespace TaggedLineParser

/-- `is_tag_prefix` (`tagged_line_parser.rs:168`). -/
def isTagPrefix (specs : List (TagSpec T)) (slug : Text) : Bool :=
  specs.any (fun spec => slug.isPrefixOf spec.opener || slug.isPrefixOf spec.closer)

/-- `match_open` (`tagged_line_parser.rs:174`). -/
def matchOpen (specs : List (TagSpec T)) (slug : Text) : Option T :=
  (specs.find? (fun spec => spec.opener == slug)).map TagSpec.tag

/-- `match_close` (`tagged_line_parser.rs:181`). -/
def matchClose (specs : List (TagSpec T)) (slug : Text) : Option T :=
  (specs.find? (fun spec => spec.closer == slug)).map TagSpec.tag

/-- `push_text` (`tagged_line_parser.rs:160`). -/
def pushText (text : Text) (segments : List (TaggedLineSegment T)) (parser : TaggedLineParser T) :
    List (TaggedLineSegment T) :=
  pushSegment segments (textSegment parser.activeTag text)

/-- What a whole line is, with or without its line feed: a tag that the state admits, or text. The
    shared part of `finish_line` (`tagged_line_parser.rs:131`) and `finish`
    (`tagged_line_parser.rs:103`). -/
def closeLine (specs : List (TagSpec T)) (line : Text) (segments : List (TaggedLineSegment T))
    (parser : TaggedLineParser T) : List (TaggedLineSegment T) × TaggedLineParser T :=
  let slug := trim ((stripSuffix ['\n'] line).getD line)
  match matchOpen specs slug, parser.activeTag with
  | some tag, none => (pushSegment segments (.tagStart tag), { parser with activeTag := some tag })
  | _, active =>
      match matchClose specs slug with
      | some tag =>
          if active = some tag then
            (pushSegment segments (.tagEnd tag), { parser with activeTag := none })
          else (parser.pushText line segments, parser)
      | none => (parser.pushText line segments, parser)

/-- `finish_line` (`tagged_line_parser.rs:131`). -/
def finishLine (specs : List (TagSpec T)) (segments : List (TaggedLineSegment T))
    (parser : TaggedLineParser T) : List (TaggedLineSegment T) × TaggedLineParser T :=
  let (segments, parser) := closeLine specs parser.lineBuffer segments
    { parser with lineBuffer := [], slugStart := 0 }
  (segments, { parser with detectTag := true })

/-- Whether a white-space character after the start of the slug leaves the line a possible tag
    without a look at its prefix (`tagged_line_parser.rs:69`): it is after other white space, or
    after a whole tag. -/
def acceptsWhitespace (specs : List (TagSpec T)) (ch : Char) (parser : TaggedLineParser T) : Bool :=
  let beforeWhitespace := sliceFrom parser.slugStart
    (sliceTo (utf8Len parser.lineBuffer - ch.utf8Size) parser.lineBuffer)
  beforeWhitespace.getLast?.any isWhitespace ||
    (matchOpen specs beforeWhitespace).isSome || (matchClose specs beforeWhitespace).isSome

/-- A character other than a line feed while the line can be a tag (`tagged_line_parser.rs:64`). -/
def detect (specs : List (TagSpec T)) (ch : Char) (segments : List (TaggedLineSegment T))
    (parser : TaggedLineParser T) : List (TaggedLineSegment T) × TaggedLineParser T :=
  if isWhitespace ch && parser.slugStart + ch.utf8Size == utf8Len parser.lineBuffer then
    (segments, { parser with slugStart := utf8Len parser.lineBuffer })
  else if isWhitespace ch && parser.acceptsWhitespace specs ch then (segments, parser)
  else if isTagPrefix specs (sliceFrom parser.slugStart parser.lineBuffer) then (segments, parser)
  else
    let next := { parser with lineBuffer := [], slugStart := 0, detectTag := false }
    (next.pushText parser.lineBuffer segments, next)

/-- The variables of the loop of `parse`. -/
structure ParseState (T : Type) where
  parser : TaggedLineParser T
  run : Text := []
  segments : List (TaggedLineSegment T) := []

/-- One character (`tagged_line_parser.rs:52`). -/
def parseChar (specs : List (TagSpec T)) (state : ParseState T) (ch : Char) : ParseState T :=
  if state.parser.detectTag then
    let segments :=
      if state.run.isEmpty then state.segments else state.parser.pushText state.run state.segments
    let parser := { state.parser with lineBuffer := state.parser.lineBuffer ++ [ch] }
    let (segments, parser) :=
      if ch = '\n' then parser.finishLine specs segments else parser.detect specs ch segments
    { parser, segments }
  else if ch = '\n' then
    { parser := { state.parser with detectTag := true }
      segments := state.parser.pushText (state.run ++ [ch]) state.segments }
  else { state with run := state.run ++ [ch] }

/-- `parse` (`tagged_line_parser.rs:48`). -/
def parse (specs : List (TagSpec T)) (delta : Text) (parser : TaggedLineParser T) :
    List (TaggedLineSegment T) × TaggedLineParser T :=
  let state := delta.foldl (parseChar specs) { parser }
  (if state.run.isEmpty then state.segments else state.parser.pushText state.run state.segments,
    state.parser)

/-- The end of the block that is still open (`tagged_line_parser.rs:124`). -/
def endBlock (segments : List (TaggedLineSegment T)) : Option T → List (TaggedLineSegment T)
  | some tag => pushSegment segments (.tagEnd tag)
  | none => segments

/-- `finish` (`tagged_line_parser.rs:103`). -/
def finish (specs : List (TagSpec T)) (parser : TaggedLineParser T) :
    List (TaggedLineSegment T) × TaggedLineParser T :=
  let (segments, parser) :=
    if parser.lineBuffer.isEmpty then ([], parser)
    else closeLine specs parser.lineBuffer [] { parser with lineBuffer := [] }
  (endBlock segments parser.activeTag,
    { parser with activeTag := none, detectTag := true, slugStart := 0 })

/-- `parse` on each piece of a text, and `finish`. -/
def parseAll (specs : List (TagSpec T)) : List Text → TaggedLineParser T →
    List (TaggedLineSegment T)
  | [], parser => (parser.finish specs).1
  | delta :: deltas, parser =>
      (parser.parse specs delta).1 ++ parseAll specs deltas (parser.parse specs delta).2

end TaggedLineParser

/-- What a line is. -/
inductive LineKind (T : Type) where
  | opens (tag : T)
  | closes (tag : T)
  | text
  deriving DecidableEq, Repr

/-- A line is a tag if its trimmed text is exactly that tag, an opening one outside a block and the
    closing one of the block inside. -/
def lineKind (specs : List (TagSpec T)) (active : Option T) (line : Text) : LineKind T :=
  match active with
  | none => ((TaggedLineParser.matchOpen specs (trim line)).map .opens).getD .text
  | some tag =>
      if TaggedLineParser.matchClose specs (trim line) = some tag then .closes tag else .text

/-- The segments of the lines of a text, one after the other. A block that is open at the end is
    closed there. -/
def referenceFrom (specs : List (TagSpec T)) (active : Option T) :
    List Text → List (TaggedLineSegment T)
  | [] => (active.map .tagEnd).toList
  | line :: lines =>
      match lineKind specs active line with
      | .opens tag => .tagStart tag :: referenceFrom specs (some tag) lines
      | .closes tag => .tagEnd tag :: referenceFrom specs none lines
      | .text => textSegment active line :: referenceFrom specs active lines

def reference (specs : List (TagSpec T)) (text : Text) : List (TaggedLineSegment T) :=
  referenceFrom specs none (splitInclusive text)

/-- Adjacent segments of the same kind, merged. -/
def mergeSegments (segments : List (TaggedLineSegment T)) : List (TaggedLineSegment T) :=
  segments.foldl pushSegment []

/-- A segment without its text cut into pieces: single characters and tags. -/
inductive Atom (T : Type) where
  | plain (c : Char)
  | inside (tag : T) (c : Char)
  | start (tag : T)
  | stop (tag : T)
  deriving DecidableEq, Repr

def TaggedLineSegment.atoms : TaggedLineSegment T → List (Atom T)
  | normal text => text.map .plain
  | tagStart tag => [.start tag]
  | tagDelta tag text => text.map (.inside tag)
  | tagEnd tag => [.stop tag]

/-- The atoms of segments in a row. -/
def atoms (segments : List (TaggedLineSegment T)) : List (Atom T) :=
  segments.flatMap TaggedLineSegment.atoms

/-- The atoms of text in a block, or outside. -/
def textAtoms (active : Option T) (text : Text) : List (Atom T) := (textSegment active text).atoms

def Atom.segment : Atom T → TaggedLineSegment T
  | plain c => .normal [c]
  | inside tag c => .tagDelta tag [c]
  | start tag => .tagStart tag
  | stop tag => .tagEnd tag

omit [DecidableEq T] in
@[simp] theorem atoms_nil : atoms ([] : List (TaggedLineSegment T)) = [] := rfl

omit [DecidableEq T] in
@[simp] theorem atoms_append (first second : List (TaggedLineSegment T)) :
    atoms (first ++ second) = atoms first ++ atoms second := by
  simp [atoms]

omit [DecidableEq T] in
@[simp] theorem atoms_cons (segment : TaggedLineSegment T) (segments : List (TaggedLineSegment T)) :
    atoms (segment :: segments) = segment.atoms ++ atoms segments := rfl

omit [DecidableEq T] in
@[simp] theorem textAtoms_nil (active : Option T) : textAtoms active [] = [] := by
  cases active <;> rfl

omit [DecidableEq T] in
theorem textAtoms_append (active : Option T) (first second : Text) :
    textAtoms active (first ++ second) = textAtoms active first ++ textAtoms active second := by
  cases active <;> simp [textAtoms, textSegment, TaggedLineSegment.atoms]

variable {segments : List (TaggedLineSegment T)}

omit [DecidableEq T] in
theorem eq_dropLast_append {last : TaggedLineSegment T}
    (isLast : segments.getLast? = some last) : segments = segments.dropLast ++ [last] := by
  obtain ⟨init, rfl⟩ := List.getLast?_eq_some_iff.mp isLast
  simp

/-- A pushed segment adds its atoms. -/
theorem atoms_pushSegment (segments : List (TaggedLineSegment T)) (segment : TaggedLineSegment T) :
    atoms (pushSegment segments segment) = atoms segments ++ segment.atoms := by
  cases segment with
  | normal delta =>
    unfold pushSegment
    dsimp only
    split
    · next empty =>
      rw [List.isEmpty_iff.mp empty]
      simp [TaggedLineSegment.atoms]
    split
    · next existing isLast =>
      conv => rhs; rw [eq_dropLast_append isLast]
      simp [TaggedLineSegment.atoms]
    · simp
  | tagDelta tag delta =>
    unfold pushSegment
    dsimp only
    split
    · next empty =>
      rw [List.isEmpty_iff.mp empty]
      simp [TaggedLineSegment.atoms]
    split
    · next existingTag existing isLast =>
      split
      · next same =>
        conv => rhs; rw [eq_dropLast_append isLast]
        simp [TaggedLineSegment.atoms, same]
      · simp
    · simp
  | tagStart tag => simp [pushSegment]
  | tagEnd tag => simp [pushSegment]

/-- Text pushed in two pieces is text pushed at once. -/
theorem pushSegment_normal_append (segments : List (TaggedLineSegment T)) (first second : Text) :
    pushSegment (pushSegment segments (.normal first)) (.normal second) =
      pushSegment segments (.normal (first ++ second)) := by
  cases first with
  | nil => simp [pushSegment]
  | cons c first =>
    cases second with
    | nil => simp [pushSegment]
    | cons d second =>
      rcases List.eq_nil_or_concat segments with rfl | ⟨init, last, rfl⟩
      · simp [pushSegment]
      · rw [List.concat_eq_append]
        cases last <;> simp [pushSegment]

theorem pushSegment_tagDelta_append (segments : List (TaggedLineSegment T)) (tag : T)
    (first second : Text) :
    pushSegment (pushSegment segments (.tagDelta tag first)) (.tagDelta tag second) =
      pushSegment segments (.tagDelta tag (first ++ second)) := by
  cases first with
  | nil => simp [pushSegment]
  | cons c first =>
    cases second with
    | nil => simp [pushSegment]
    | cons d second =>
      rcases List.eq_nil_or_concat segments with rfl | ⟨init, last, rfl⟩
      · simp [pushSegment]
      · rw [List.concat_eq_append]
        cases last with
        | tagDelta other existing =>
          by_cases same : other = tag <;> simp [pushSegment, same]
        | _ => simp [pushSegment]

/-- Pushing a segment is pushing its atoms. -/
theorem pushSegment_eq_foldl (segments : List (TaggedLineSegment T))
    (segment : TaggedLineSegment T) :
    pushSegment segments segment =
      segment.atoms.foldl (fun segments atom => pushSegment segments atom.segment) segments := by
  cases segment with
  | normal text =>
    change _ = (text.map Atom.plain).foldl _ segments
    induction text generalizing segments with
    | nil => simp [pushSegment]
    | cons c text ih =>
      rw [List.map_cons, List.foldl_cons, ← ih]
      exact (pushSegment_normal_append segments [c] text).symm
  | tagDelta tag text =>
    change _ = (text.map (Atom.inside tag)).foldl _ segments
    induction text generalizing segments with
    | nil => simp [pushSegment]
    | cons c text ih =>
      rw [List.map_cons, List.foldl_cons, ← ih]
      exact (pushSegment_tagDelta_append segments tag [c] text).symm
  | tagStart tag => rfl
  | tagEnd tag => rfl

/-- Merged segments depend on the atoms alone. -/
theorem mergeSegments_congr {first second : List (TaggedLineSegment T)}
    (same : atoms first = atoms second) : mergeSegments first = mergeSegments second := by
  have merged : ∀ segments : List (TaggedLineSegment T), mergeSegments segments =
      (atoms segments).foldl (fun segments atom => pushSegment segments atom.segment) [] := by
    intro segments
    unfold mergeSegments atoms
    rw [List.foldl_flatMap]
    congr 1
    funext segments segment
    exact pushSegment_eq_foldl segments segment
  rw [merged, merged, same]

/-- The atoms of a line, and the block after it. -/
def lineStep (specs : List (TagSpec T)) (active : Option T) (line : Text) :
    List (Atom T) × Option T :=
  match lineKind specs active line with
  | .opens tag => ([.start tag], some tag)
  | .closes tag => ([.stop tag], none)
  | .text => (textAtoms active line, active)

/-- The atoms of lines in a row, and the block after them. -/
def linesFrom (specs : List (TagSpec T)) (active : Option T) :
    List Text → List (Atom T) × Option T
  | [] => ([], active)
  | line :: lines =>
      let (first, next) := lineStep specs active line
      let (rest, final) := linesFrom specs next lines
      (first ++ rest, final)

/-- The end of a block that is open at the end of the text. -/
def stopAtoms (active : Option T) : List (Atom T) := (active.map .stop).toList

theorem atoms_referenceFrom (specs : List (TagSpec T)) (active : Option T) (lines : List Text) :
    atoms (referenceFrom specs active lines) =
      (linesFrom specs active lines).1 ++ stopAtoms (linesFrom specs active lines).2 := by
  induction lines generalizing active with
  | nil => cases active <;> rfl
  | cons line lines ih =>
    unfold referenceFrom linesFrom lineStep
    cases lineKind specs active line with
    | opens tag => simp [ih, TaggedLineSegment.atoms]
    | closes tag => simp [ih, TaggedLineSegment.atoms]
    | text => simp [ih, textAtoms]

theorem linesFrom_snoc (specs : List (TagSpec T)) (active : Option T) (lines : List Text)
    (line : Text) :
    linesFrom specs active (lines ++ [line]) =
      ((linesFrom specs active lines).1 ++
          (lineStep specs (linesFrom specs active lines).2 line).1,
        (lineStep specs (linesFrom specs active lines).2 line).2) := by
  induction lines generalizing active with
  | nil => simp [linesFrom]
  | cons first lines ih => simp [linesFrom, ih]

/-- A line with its line feed, which is its last character. -/
def IsLine (line : Text) : Prop := ∃ init, line = init ++ ['\n'] ∧ '\n' ∉ init

/-- The lines of a text are its complete lines and the rest. -/
theorem splitInclusive_lines {lines : List Text} {last : Text}
    (complete : ∀ line ∈ lines, IsLine line) (single : '\n' ∉ last) :
    splitInclusive (lines.flatten ++ last) = lines ++ if last = [] then [] else [last] := by
  induction lines with
  | nil =>
    rw [List.flatten_nil, List.nil_append, List.nil_append]
    induction last with
    | nil => rfl
    | cons c last ih =>
      rw [List.mem_cons, not_or] at single
      rw [splitInclusive, if_neg (Ne.symm single.1), ih single.2, if_neg (List.cons_ne_nil c last)]
      by_cases empty : last = []
      · rw [if_pos empty, empty]
      · rw [if_neg empty]
  | cons line lines ih =>
    obtain ⟨init, rfl, noFeed⟩ := complete line List.mem_cons_self
    rw [List.flatten_cons, List.append_assoc, List.append_assoc, List.singleton_append,
      splitInclusive_append_feed noFeed,
      ih (fun other member => complete other (List.mem_cons_of_mem _ member))]
    rfl

/-- The line feed of a line is trimmed as well. -/
theorem trim_stripFeed (line : Text) : trim ((stripSuffix ['\n'] line).getD line) = trim line := by
  rcases List.eq_nil_or_concat line with rfl | ⟨init, c, rfl⟩
  · rfl
  · rw [List.concat_eq_append]
    by_cases isFeed : c = '\n'
    · rw [isFeed, stripSuffix_concat, Option.getD_some, trim_concat_of_blank (by decide)]
    · rw [stripSuffix_concat_ne isFeed, Option.getD_none]

namespace TaggedLineParser

/-- A whole line is treated as the reference does. -/
theorem closeLine_eq (specs : List (TagSpec T)) (line : Text)
    (segments : List (TaggedLineSegment T)) (parser : TaggedLineParser T) :
    atoms (closeLine specs line segments parser).1 =
        atoms segments ++ (lineStep specs parser.activeTag line).1 ∧
      (closeLine specs line segments parser).2 =
        { parser with activeTag := (lineStep specs parser.activeTag line).2 } := by
  obtain ⟨activeTag, detectTag, lineBuffer, slugStart⟩ := parser
  unfold closeLine lineStep lineKind
  rw [trim_stripFeed]
  dsimp only
  have text : atoms (pushText line segments ⟨activeTag, detectTag, lineBuffer, slugStart⟩) =
      atoms segments ++ textAtoms activeTag line := atoms_pushSegment _ _
  cases activeTag with
  | none =>
    cases matchOpen specs (trim line) with
    | some tag => exact ⟨atoms_pushSegment segments (.tagStart tag), rfl⟩
    | none => cases matchClose specs (trim line) <;> exact ⟨text, rfl⟩
  | some tag =>
    cases matchClose specs (trim line) with
    | none => cases matchOpen specs (trim line) <;> exact ⟨text, rfl⟩
    | some other =>
      by_cases same : tag = other
      · subst same
        cases matchOpen specs (trim line) <;> simp [atoms_pushSegment, TaggedLineSegment.atoms]
      · cases matchOpen specs (trim line) <;> simp [same, Ne.symm same, text]

/-- However the line goes on, it is no tag. -/
def Doomed (specs : List (TagSpec T)) (line : Text) : Prop :=
  ∀ rest, matchOpen specs (trim (line ++ rest)) = none ∧
    matchClose specs (trim (line ++ rest)) = none

variable {specs : List (TagSpec T)} {line : Text} {ch : Char}

theorem lineStep_of_doomed (doomed : Doomed specs line) (active : Option T) (rest : Text) :
    lineStep specs active (line ++ rest) = (textAtoms active (line ++ rest), active) := by
  obtain ⟨noOpen, noClose⟩ := doomed rest
  unfold lineStep lineKind
  cases active with
  | none => simp [noOpen]
  | some tag => simp [noClose]

omit [DecidableEq T] in
theorem Doomed.append (doomed : Doomed specs line) (rest : Text) : Doomed specs (line ++ rest) := by
  intro more
  rw [List.append_assoc]
  exact doomed (rest ++ more)

omit [DecidableEq T] in
/-- A tag begins with each of its prefixes. -/
theorem isTagPrefix_of_matches {slug rest : Text}
    (isTag : (matchOpen specs (slug ++ rest)).isSome ∨ (matchClose specs (slug ++ rest)).isSome) :
    isTagPrefix specs slug := by
  unfold isTagPrefix
  rw [List.any_eq_true]
  rcases isTag with isTag | isTag
  · simp only [matchOpen, Option.isSome_map, List.find?_isSome, beq_iff_eq] at isTag
    obtain ⟨spec, member, same⟩ := isTag
    exact ⟨spec, member, by simp [same]⟩
  · simp only [matchClose, Option.isSome_map, List.find?_isSome, beq_iff_eq] at isTag
    obtain ⟨spec, member, same⟩ := isTag
    exact ⟨spec, member, by simp [same]⟩

omit [DecidableEq T] in
/-- Nothing that goes on from a text that begins no tag is one. -/
theorem no_match_of_not_prefix {slug : Text} (noPrefix : isTagPrefix specs slug = false)
    (rest : Text) :
    matchOpen specs (slug ++ rest) = none ∧ matchClose specs (slug ++ rest) = none := by
  refine ⟨?_, ?_⟩
  · cases isTag : matchOpen specs (slug ++ rest) with
    | none => rfl
    | some tag =>
      rw [isTagPrefix_of_matches (.inl (by rw [isTag]; rfl))] at noPrefix
      cases noPrefix
  · cases isTag : matchClose specs (slug ++ rest) with
    | none => rfl
    | some tag =>
      rw [isTagPrefix_of_matches (.inr (by rw [isTag]; rfl))] at noPrefix
      cases noPrefix

omit [DecidableEq T] in
/-- A visible character after which the line begins no tag. -/
theorem doomed_of_visible (visible : isWhitespace ch = false)
    (noPrefix : isTagPrefix specs (trimStart line ++ [ch]) = false) :
    Doomed specs (line ++ [ch]) := by
  intro rest
  have slug : trimStart (line ++ [ch]) = trimStart line ++ [ch] := by
    unfold trimStart
    rw [List.dropWhile_append]
    split
    · next empty => simp [List.isEmpty_iff.mp empty, visible]
    · rfl
  have trimmed : trim (line ++ [ch] ++ rest) = (trimStart line ++ [ch]) ++ trimEnd rest := by
    rw [trim, trimStart_append (by rw [slug]; simp), slug, List.append_assoc,
      List.singleton_append, trimEnd_append (by rw [trimEnd_cons_of_visible visible]; simp),
      trimEnd_cons_of_visible visible, List.append_assoc]
    rfl
  rw [trimmed]
  exact no_match_of_not_prefix noPrefix _

omit [DecidableEq T] in
/-- White space inside the slug, after what is no tag and before what begins none. -/
theorem doomed_of_blank (some : trimStart line ≠ [])
    (visible : trimEnd (trimStart line) = trimStart line)
    (noOpen : matchOpen specs (trimStart line) = none)
    (noClose : matchClose specs (trimStart line) = none)
    (noPrefix : isTagPrefix specs (trimStart line ++ [ch]) = false) :
    Doomed specs (line ++ [ch]) := by
  intro rest
  rw [List.append_assoc, List.singleton_append, trim, trimStart_append some]
  by_cases blank : trimEnd (ch :: rest) = []
  · have trimmed : trimEnd (trimStart line ++ ch :: rest) = trimStart line := by
      have all : ∀ c ∈ ch :: rest, isWhitespace c := List.rdropWhile_eq_nil_iff.mp blank
      unfold trimEnd at visible ⊢
      rw [List.rdropWhile, List.reverse_append, List.dropWhile_append_of_pos
        (fun c member => all c (List.mem_reverse.mp member))]
      exact visible
    rw [trimmed]
    exact ⟨noOpen, noClose⟩
  rw [trimEnd_append blank]
  obtain ⟨more, isMore⟩ : ∃ more, trimEnd (ch :: rest) = ch :: more := by
    rw [trimEnd_cons] at blank ⊢
    split
    · next empty =>
      rw [if_pos empty] at blank
      split
      · next isBlank =>
        rw [if_pos isBlank] at blank
        exact absurd rfl blank
      · exact ⟨[], rfl⟩
    · exact ⟨_, rfl⟩
  rw [isMore, ← List.singleton_append, ← List.append_assoc]
  exact no_match_of_not_prefix noPrefix _

/-- The parser after a text: the complete lines are emitted as the reference has them, and the last
    line is kept back while it can be a tag and emitted as far as it goes otherwise. -/
structure Parsed (specs : List (TagSpec T)) (text : Text) (emitted : List (Atom T))
    (parser : TaggedLineParser T) (lines : List Text) (line : Text) : Prop where
  isText : text = lines.flatten ++ line
  complete : ∀ line ∈ lines, IsLine line
  single : '\n' ∉ line
  active : parser.activeTag = (linesFrom specs none lines).2
  state : (parser.detectTag = true ∧ parser.lineBuffer = line ∧
      parser.slugStart = utf8Len (line.takeWhile isWhitespace) ∧
      emitted = (linesFrom specs none lines).1) ∨
    (parser.detectTag = false ∧ parser.lineBuffer = [] ∧ parser.slugStart = 0 ∧ line ≠ [] ∧
      Doomed specs line ∧
      emitted = (linesFrom specs none lines).1 ++ textAtoms parser.activeTag line)

section Parsed

variable {specs : List (TagSpec T)} {text line : Text} {emitted : List (Atom T)}
  {parser : TaggedLineParser T} {lines : List Text}

variable {next : TaggedLineParser T} {before : List (Atom T)}

/-- A line feed ends the line. -/
theorem Parsed.feed {more : List (Atom T)} (parsed : Parsed specs text emitted parser lines line)
    (fresh : next.detectTag = true ∧ next.lineBuffer = [] ∧ next.slugStart = 0)
    (active : next.activeTag = (lineStep specs parser.activeTag (line ++ ['\n'])).2)
    (isMore : emitted ++ more = (linesFrom specs none lines).1 ++
      (lineStep specs parser.activeTag (line ++ ['\n'])).1) :
    Parsed specs (text ++ ['\n']) (emitted ++ more) next (lines ++ [line ++ ['\n']]) [] := by
  refine ⟨?_, ?_, List.not_mem_nil, ?_, .inl ⟨fresh.1, fresh.2.1, fresh.2.2, ?_⟩⟩
  · rw [parsed.isText]
    simp
  · intro other member
    rcases List.mem_append.mp member with old | new
    · exact parsed.complete other old
    · rw [List.mem_singleton.mp new]
      exact ⟨line, rfl, parsed.single⟩
  · rw [linesFrom_snoc, ← parsed.active, active]
  · rw [linesFrom_snoc, ← parsed.active, isMore]

/-- A character after which the line can still be a tag. -/
theorem Parsed.keep (parsed : Parsed specs text emitted parser lines line) (noFeed : ch ≠ '\n')
    (active : next.activeTag = parser.activeTag) (detecting : parser.detectTag = true)
    (isNext : next.detectTag = true ∧ next.lineBuffer = line ++ [ch] ∧
      next.slugStart = utf8Len ((line ++ [ch]).takeWhile isWhitespace)) :
    Parsed specs (text ++ [ch]) emitted next lines (line ++ [ch]) := by
  rcases parsed.state with ⟨-, -, -, isEmitted⟩ | ⟨notDetecting, -⟩
  · refine ⟨?_, parsed.complete, ?_, active.trans parsed.active,
      .inl ⟨isNext.1, isNext.2.1, isNext.2.2, isEmitted⟩⟩
    · rw [parsed.isText, List.append_assoc]
    · simpa using ⟨parsed.single, Ne.symm noFeed⟩
  · rw [detecting] at notDetecting
    cases notDetecting

/-- A character after which the line is text. -/
theorem Parsed.doom {more : List (Atom T)} (parsed : Parsed specs text emitted parser lines line)
    (noFeed : ch ≠ '\n') (active : next.activeTag = parser.activeTag)
    (isNext : next.detectTag = false ∧ next.lineBuffer = [] ∧ next.slugStart = 0)
    (doomed : Doomed specs (line ++ [ch]))
    (isMore : emitted ++ more = (linesFrom specs none lines).1 ++
      textAtoms parser.activeTag (line ++ [ch])) :
    Parsed specs (text ++ [ch]) (emitted ++ more) next lines (line ++ [ch]) := by
  refine ⟨?_, parsed.complete, ?_, active.trans parsed.active,
    .inr ⟨isNext.1, isNext.2.1, isNext.2.2, by simp, doomed, ?_⟩⟩
  · rw [parsed.isText, List.append_assoc]
  · simpa using ⟨parsed.single, Ne.symm noFeed⟩
  · rw [active]
    exact isMore

omit [DecidableEq T] in
/-- The slug is what follows the leading white space. -/
theorem slug_eq (line rest : Text) :
    sliceFrom (utf8Len (line.takeWhile isWhitespace)) (line ++ rest) = trimStart line ++ rest := by
  have whole := List.takeWhile_append_dropWhile (p := isWhitespace) (l := line)
  have slug := sliceFrom_append (line.takeWhile isWhitespace) (line.dropWhile isWhitespace ++ rest)
  rw [← List.append_assoc, whole] at slug
  exact slug

omit [DecidableEq T] in
/-- What precedes a white-space character, from the start of the slug. -/
theorem beforeWhitespace_eq (line : Text) (ch : Char) :
    sliceFrom (utf8Len (line.takeWhile isWhitespace))
      (sliceTo (utf8Len (line ++ [ch]) - ch.utf8Size) (line ++ [ch])) = trimStart line := by
  have front : utf8Len (line ++ [ch]) - ch.utf8Size = utf8Len line := by
    rw [utf8Len_append]
    simp [utf8Len]
  rw [front, sliceTo_append]
  simpa using slug_eq line []

omit [DecidableEq T] in
/-- The slug has not begun exactly when all before the character is white space. -/
theorem slug_begins (line : Text) (ch : Char) :
    utf8Len (line.takeWhile isWhitespace) + ch.utf8Size = utf8Len (line ++ [ch]) ↔
      trimStart line = [] := by
  have whole : utf8Len line = utf8Len (line.takeWhile isWhitespace) + utf8Len (trimStart line) := by
    rw [← utf8Len_append, trimStart, List.takeWhile_append_dropWhile]
  have last : utf8Len (line ++ [ch]) = utf8Len line + ch.utf8Size := by
    rw [utf8Len_append]
    simp [utf8Len]
  refine ⟨fun same => utf8Len_eq_zero (by omega), fun empty => ?_⟩
  rw [empty] at whole
  simp only [utf8Len, List.map_nil, List.sum_nil] at whole ⊢
  simp only [utf8Len] at last
  omega

omit [DecidableEq T] in
/-- The leading white space of a line once the slug has begun. -/
theorem takeWhile_snoc (begun : trimStart line ≠ []) (ch : Char) :
    (line ++ [ch]).takeWhile isWhitespace = line.takeWhile isWhitespace := by
  rw [List.takeWhile_append, if_neg]
  intro all
  apply begun
  have split := List.takeWhile_append_dropWhile (p := isWhitespace) (l := line)
  have lengths := congrArg List.length split
  rw [List.length_append] at lengths
  exact List.length_eq_zero_iff.mp (by unfold trimStart; omega)

omit [DecidableEq T] in
theorem takeWhile_snoc_of_visible (line : Text) (visible : isWhitespace ch = false) :
    (line ++ [ch]).takeWhile isWhitespace = line.takeWhile isWhitespace := by
  by_cases begun : trimStart line = []
  · have all : line.takeWhile isWhitespace = line := by
      have split := List.takeWhile_append_dropWhile (p := isWhitespace) (l := line)
      rw [show line.dropWhile isWhitespace = [] from begun, List.append_nil] at split
      exact split
    rw [List.takeWhile_append, all, if_pos rfl]
    simp [visible]
  · exact takeWhile_snoc begun ch

theorem detect_parsed (parsed : Parsed specs text (before ++ atoms segments) parser lines line)
    (detecting : parser.detectTag = true) (noFeed : ch ≠ '\n') :
    Parsed specs (text ++ [ch])
      (before ++ atoms (detect specs ch segments
        { parser with lineBuffer := parser.lineBuffer ++ [ch] }).1)
      (detect specs ch segments { parser with lineBuffer := parser.lineBuffer ++ [ch] }).2 lines
      (line ++ [ch]) := by
  obtain ⟨-, isLine, isStart, isEmitted⟩ | ⟨notDetecting, -⟩ := parsed.state
  swap
  · rw [detecting] at notDetecting
    cases notDetecting
  have flush : Doomed specs (line ++ [ch]) →
      Parsed specs (text ++ [ch])
        (before ++ atoms (pushText (line ++ [ch]) segments
          { parser with lineBuffer := [], slugStart := 0, detectTag := false }))
        { parser with lineBuffer := [], slugStart := 0, detectTag := false } lines
        (line ++ [ch]) := by
    intro doomed
    rw [pushText, atoms_pushSegment, ← List.append_assoc]
    refine parsed.doom noFeed rfl ⟨rfl, rfl, rfl⟩ doomed ?_
    rw [isEmitted]
    rfl
  unfold detect acceptsWhitespace
  dsimp only
  rw [isLine, isStart, slug_eq, beforeWhitespace_eq]
  split
  · next leading =>
    rw [Bool.and_eq_true, beq_iff_eq, slug_begins] at leading
    refine parsed.keep noFeed rfl detecting ⟨detecting, rfl, ?_⟩
    dsimp only
    congr 1
    refine (List.takeWhile_eq_self_iff.mpr ?_).symm
    intro c member
    rcases List.mem_append.mp member with old | new
    · exact List.dropWhile_eq_nil_iff.mp leading.2 c old
    · rw [List.mem_singleton.mp new]
      exact leading.1
  next notLeading =>
  have sameStart : isWhitespace ch = false ∨ trimStart line ≠ [] →
      utf8Len (line.takeWhile isWhitespace) =
        utf8Len ((line ++ [ch]).takeWhile isWhitespace) := by
    rintro (visible | begun)
    · rw [takeWhile_snoc_of_visible line visible]
    · rw [takeWhile_snoc begun]
  have begun : isWhitespace ch = true → trimStart line ≠ [] := by
    intro blank empty
    rw [Bool.and_eq_true, beq_iff_eq, slug_begins] at notLeading
    exact notLeading ⟨blank, empty⟩
  have visibleOrBegun : isWhitespace ch = false ∨ trimStart line ≠ [] := by
    cases blank : isWhitespace ch with
    | false => exact .inl rfl
    | true => exact .inr (begun blank)
  split
  · exact parsed.keep noFeed rfl detecting ⟨detecting, rfl, sameStart visibleOrBegun⟩
  next notAccepted =>
  split
  · exact parsed.keep noFeed rfl detecting ⟨detecting, rfl, sameStart visibleOrBegun⟩
  next noPrefix =>
  rw [Bool.not_eq_true] at noPrefix
  apply flush
  cases blank : isWhitespace ch with
  | false => exact doomed_of_visible blank noPrefix
  | true =>
    simp only [blank, Bool.true_and, Bool.or_eq_true, not_or, Option.isSome_iff_ne_none,
      ne_eq, not_not] at notAccepted
    obtain ⟨⟨lastVisible, noOpen⟩, noClose⟩ := notAccepted
    refine doomed_of_blank (begun blank) ?_ noOpen noClose noPrefix
    rcases List.eq_nil_or_concat (trimStart line) with empty | ⟨init, c, isConcat⟩
    · exact absurd empty (begun blank)
    · rw [isConcat, List.concat_eq_append] at lastVisible ⊢
      rw [trimEnd_concat, if_neg (by simpa using lastVisible)]

/-- A line feed while the line can be a tag. -/
theorem finishLine_parsed (parsed : Parsed specs text (before ++ atoms segments) parser lines line)
    (detecting : parser.detectTag = true) :
    Parsed specs (text ++ ['\n'])
      (before ++ atoms (finishLine specs segments
        { parser with lineBuffer := parser.lineBuffer ++ ['\n'] }).1)
      (finishLine specs segments { parser with lineBuffer := parser.lineBuffer ++ ['\n'] }).2
      (lines ++ [line ++ ['\n']]) [] := by
  obtain ⟨-, isLine, -, isEmitted⟩ | ⟨notDetecting, -⟩ := parsed.state
  swap
  · rw [detecting] at notDetecting
    cases notDetecting
  obtain ⟨emits, isNext⟩ := closeLine_eq specs (line ++ ['\n']) segments
    { parser with lineBuffer := [], slugStart := 0 }
  unfold finishLine
  dsimp only
  rw [isLine, emits, isNext, ← List.append_assoc]
  refine parsed.feed ⟨rfl, rfl, rfl⟩ rfl ?_
  rw [isEmitted]

/-- The loop of `parse` after some characters. The run is text of a line that is no tag. -/
structure Running (specs : List (TagSpec T)) (text : Text) (before : List (Atom T))
    (state : ParseState T) : Prop where
  parsed : ∃ lines line, Parsed specs text
    (before ++ atoms state.segments ++ textAtoms state.parser.activeTag state.run) state.parser
    lines line
  noRun : state.parser.detectTag = true → state.run = []

theorem Running.parseChar {state : ParseState T} (running : Running specs text before state)
    (ch : Char) :
    Running specs (text ++ [ch]) before (parseChar specs state ch) := by
  obtain ⟨lines, line, parsed⟩ := running.parsed
  unfold TaggedLineParser.parseChar
  by_cases detecting : state.parser.detectTag = true
  · have empty := running.noRun detecting
    rw [empty, textAtoms_nil, List.append_nil] at parsed
    rw [if_pos detecting, empty]
    dsimp only
    by_cases isFeed : ch = '\n'
    · subst isFeed
      refine ⟨⟨lines ++ [line ++ ['\n']], [], ?_⟩, fun _ => rfl⟩
      rw [textAtoms_nil, List.append_nil]
      exact finishLine_parsed parsed detecting
    · refine ⟨⟨lines, line ++ [ch], ?_⟩, fun _ => rfl⟩
      rw [textAtoms_nil, List.append_nil]
      simp only [if_neg isFeed]
      exact detect_parsed parsed detecting isFeed
  · rw [if_neg detecting]
    obtain ⟨isDetecting, -⟩ | ⟨-, noBuffer, noStart, -, doomed, isEmitted⟩ := parsed.state
    · exact absurd isDetecting detecting
    by_cases isFeed : ch = '\n'
    · subst isFeed
      rw [if_pos rfl]
      have text := lineStep_of_doomed doomed state.parser.activeTag ['\n']
      refine ⟨⟨lines ++ [line ++ ['\n']], [], ?_⟩, fun _ => rfl⟩
      rw [textAtoms_nil, List.append_nil, pushText, atoms_pushSegment]
      change Parsed specs _ (before ++ (atoms state.segments ++
        textAtoms state.parser.activeTag (state.run ++ ['\n']))) _ _ _
      rw [textAtoms_append, ← List.append_assoc, ← List.append_assoc]
      refine parsed.feed ⟨rfl, noBuffer, noStart⟩ ?_ ?_
      · rw [text]
      · rw [text, isEmitted, textAtoms_append, List.append_assoc]
    · rw [if_neg isFeed]
      refine ⟨⟨lines, line ++ [ch], ?_⟩, fun isDetecting => absurd isDetecting detecting⟩
      dsimp only
      rw [textAtoms_append, ← List.append_assoc]
      refine parsed.doom isFeed rfl ⟨by simpa using detecting, noBuffer, noStart⟩
        (doomed.append [ch]) ?_
      rw [isEmitted, textAtoms_append, List.append_assoc]

/-- A piece of text. -/
theorem parse_parsed (delta : Text) (parsed : Parsed specs text emitted parser lines line) :
    ∃ lines line, Parsed specs (text ++ delta) (emitted ++ atoms (parser.parse specs delta).1)
      (parser.parse specs delta).2 lines line := by
  have running : ∀ (text : Text) (state : ParseState T), Running specs text emitted state →
      Running specs (text ++ delta) emitted (delta.foldl (TaggedLineParser.parseChar specs) state) := by
    induction delta with
    | nil =>
      intro text state running
      simpa using running
    | cons ch delta ih =>
      intro text state running
      have rest := ih (text ++ [ch]) _ (running.parseChar ch)
      simpa using rest
  obtain ⟨⟨lines, line, final⟩, -⟩ := running text { parser } ⟨⟨lines, line, by simpa using parsed⟩,
    fun _ => rfl⟩
  refine ⟨lines, line, ?_⟩
  unfold parse
  dsimp only
  split
  · next empty =>
    rw [List.isEmpty_iff.mp empty, textAtoms_nil, List.append_nil] at final
    exact final
  · rw [pushText, atoms_pushSegment, ← List.append_assoc]
    exact final

theorem atoms_endBlock (segments : List (TaggedLineSegment T)) (activeTag : Option T) :
    atoms (endBlock segments activeTag) = atoms segments ++ stopAtoms activeTag := by
  cases activeTag with
  | none => simp [endBlock, stopAtoms]
  | some tag => exact atoms_pushSegment segments (.tagEnd tag)

/-- The end of the text. -/
theorem finish_parsed (parsed : Parsed specs text emitted parser lines line) :
    emitted ++ atoms (parser.finish specs).1 = atoms (reference specs text) := by
  have active := parsed.active
  rw [reference, parsed.isText, splitInclusive_lines parsed.complete parsed.single,
    atoms_referenceFrom]
  unfold finish
  dsimp only
  rw [atoms_endBlock]
  obtain ⟨-, isLine, -, isEmitted⟩ | ⟨-, noBuffer, -, isSome, doomed, isEmitted⟩ := parsed.state
  · rw [isLine]
    by_cases empty : line = []
    · rw [if_pos (List.isEmpty_iff.mpr empty), if_pos empty, List.append_nil, isEmitted, active]
      simp
    · rw [if_neg (by simpa using empty), if_neg empty, linesFrom_snoc, ← active]
      obtain ⟨emits, isNext⟩ := closeLine_eq specs line [] { parser with lineBuffer := [] }
      rw [emits, isNext, isEmitted]
      simp
  · have text := lineStep_of_doomed doomed parser.activeTag []
    rw [List.append_nil] at text
    rw [noBuffer, List.isEmpty_nil, if_pos rfl, if_neg isSome, linesFrom_snoc, ← active, text,
      isEmitted]
    simp

end Parsed

/-- A text in pieces gives what the reference gives for the whole of it. -/
theorem atoms_parseAll (specs : List (TagSpec T)) (deltas : List Text) :
    atoms (parseAll specs deltas {}) = atoms (reference specs deltas.flatten) := by
  have all : ∀ (text : Text) (emitted : List (Atom T)) (parser : TaggedLineParser T)
      (lines : List Text) (line : Text), Parsed specs text emitted parser lines line →
      emitted ++ atoms (parseAll specs deltas parser) =
        atoms (reference specs (text ++ deltas.flatten)) := by
    induction deltas with
    | nil =>
      intro text emitted parser lines line parsed
      simpa [parseAll] using finish_parsed parsed
    | cons delta deltas ih =>
      intro text emitted parser lines line parsed
      obtain ⟨lines, line, next⟩ := parse_parsed delta parsed
      rw [parseAll, atoms_append, ← List.append_assoc, ih _ _ _ _ _ next]
      simp
  refine all [] [] {} [] [] ⟨rfl, ?_, List.not_mem_nil, rfl, .inl ⟨rfl, rfl, rfl, rfl⟩⟩
  intro line member
  cases member

end TaggedLineParser

end Codex.StreamParser
