import Codex.Truncation.Truncate

/-!
# Outlines of JSON lines

`utils/output-truncation/src/lib.rs`: a line that is one JSON value and alone takes more than its
share of the budget is replaced by an outline of the value.
-/

namespace Codex.Truncation

open Text

/-- `serde_json::Value` with the fields of an object in their order. A number, a boolean and
    `null` are as they are printed. -/
inductive JsonValue where
  | object (map : List (Text × JsonValue))
  | array (items : List JsonValue)
  | string (text : Text)
  | other (printed : Text)

/-- `serde_json`: the reader of a value, and what a string is printed as. -/
structure SerdeJson where
  fromStr : Text → Option JsonValue
  printString : Text → Text

def JSON_LINE_OUTLINE_BUDGET_DIVISOR : Nat := 2

def JSON_OUTLINE_MAX_KEYS : Nat := 32

def JSON_OUTLINE_STRING_CHARS : Nat := 48

def JSON_OUTLINE_MAX_DEPTH : Nat := 3

/-- `approx_token_count_exceeds` (`truncate.rs:211`). -/
def approxTokenCountExceeds (text : Text) (limit : Nat) : Bool :=
  decide (limit < tokenByteEstimate (utf8Len text))

/-- A number in a `format!`. -/
def printNat (number : Nat) : Text := (Nat.repr number).toList

section Outline

variable (serde : SerdeJson)

/-- The string and scalar cases of `json_outline` (`lib.rs:433`). -/
def outlineString (text : Text) : Text :=
  if text.length ≤ JSON_OUTLINE_STRING_CHARS then serde.printString text
  else
    serde.printString (text.take JSON_OUTLINE_STRING_CHARS) ++ "…(".toList ++
      printNat text.length ++ " chars)".toList

/-- `json_outline` (`lib.rs:401`): what it appends. -/
def jsonOutline : Nat → JsonValue → Text
  | 0, .object map => "\x7b…".toList ++ printNat map.length ++ " keys\x7d".toList
  | depth + 1, .object map =>
      let shown := (map.take JSON_OUTLINE_MAX_KEYS).map fun field =>
        serde.printString field.1 ++ ":".toList ++ jsonOutline depth field.2
      "\x7b".toList ++ (shown.intersperse ",".toList).flatten ++
        (if JSON_OUTLINE_MAX_KEYS < map.length then
          ",…".toList ++ printNat (map.length - JSON_OUTLINE_MAX_KEYS) ++ " more keys".toList
        else []) ++ "\x7d".toList
  | 0, .array items => "[…".toList ++ printNat items.length ++ " items]".toList
  | _ + 1, .array [] => "[…".toList ++ printNat 0 ++ " items]".toList
  | depth + 1, .array (first :: rest) =>
      "[".toList ++ printNat (rest.length + 1) ++ " items; first ".toList ++
        jsonOutline depth first ++
        (match rest.getLast? with
        | none => []
        | some last => "; last ".toList ++ jsonOutline depth last) ++ "]".toList
  | _, .string text => outlineString serde text
  | _, .other printed => printed

/-- The outline of a line at a depth. -/
def jsonLineOutlineAt (value : JsonValue) (bytes depth : Nat) : Text :=
  "[JSON line of ".toList ++ printNat bytes ++
    " bytes outlined; recover exact source with line or byte selectors] ".toList ++
    jsonOutline serde depth value

/-- The loop of `json_line_outline` (`lib.rs:387`), from a depth down. -/
def jsonLineOutlineFrom (value : JsonValue) (bytes maxTokens : Nat) : Nat → Text
  | 0 => jsonLineOutlineAt serde value bytes 0
  | depth + 1 =>
      let best := jsonLineOutlineAt serde value bytes (depth + 1)
      if approxTokenCountExceeds best maxTokens then jsonLineOutlineFrom value bytes maxTokens depth
      else best

/-- `json_line_outline` (`lib.rs:385`). -/
def jsonLineOutline (value : JsonValue) (bytes maxTokens : Nat) : Text :=
  jsonLineOutlineFrom serde value bytes maxTokens JSON_OUTLINE_MAX_DEPTH

/-- The line without its end (`lib.rs:355`). -/
def lineBody (line : Text) : Text := line.rdropWhile fun c => c == '\r' || c == '\n'

/-- What an oversized JSON line is replaced by (`lib.rs:357`). -/
def outlineLine (maxTokens : Nat) (line : Text) : Option Text :=
  let lineBudget := maxTokens / JSON_LINE_OUTLINE_BUDGET_DIVISOR
  let body := lineBody line
  let trimmed := trim body
  if ['\x7b'] <+: trimmed ∨ ['['] <+: trimmed then
    if approxTokenCountExceeds body lineBudget then
      (serde.fromStr trimmed).map fun value => jsonLineOutline serde value (utf8Len body) lineBudget
    else none
  else none

/-- One line of `outline_oversized_json_lines` (`lib.rs:354`): the offset, and the text so far
    where a line has been outlined. -/
def outlineStep (content : Text) (maxTokens : Nat) (state : Nat × Option Text) (line : Text) :
    Option (Nat × Option Text) :=
  (match outlineLine serde maxTokens line with
    | some outline =>
        (match state.2 with
          | some outlined => some outlined
          | none => getTo content state.1).bind fun outlined =>
            (getFrom line (utf8Len (lineBody line))).map fun lineEnd =>
              some (outlined ++ outline ++ lineEnd)
    | none => some (state.2.map fun outlined => outlined ++ line)).map fun outlined =>
      (state.1 + utf8Len line, outlined)

/-- `outline_oversized_json_lines` (`lib.rs:347`). -/
def outlineOversizedJsonLines (content : Text) (maxTokens : Nat) : Option (Option Text) :=
  ((splitInclusive content).foldlM (outlineStep serde content maxTokens) (0, none)).map Prod.snd

/-- A line with the value outlined, if it is outlined. -/
def outlinedLine (maxTokens : Nat) (line : Text) : Text :=
  match outlineLine serde maxTokens line with
  | some outline => outline ++ line.drop (lineBody line).length
  | none => line

/-- A text with its oversized JSON lines replaced by their outlines. -/
def outlinedText (content : Text) (maxTokens : Nat) : Text :=
  ((splitInclusive content).map (outlinedLine serde maxTokens)).flatten

/-- Where `outline_oversized_json_lines` stands behind some lines. -/
def outlinedSoFar (maxTokens : Nat) (lines : List Text) : Nat × Option Text :=
  (utf8Len lines.flatten,
    if lines.any fun line => (outlineLine serde maxTokens line).isSome then
      some (lines.map (outlinedLine serde maxTokens)).flatten
    else none)

variable {serde}

theorem map_outlinedLine_of_none {maxTokens : Nat} {lines : List Text}
    (none : lines.any (fun line => (outlineLine serde maxTokens line).isSome) = false) :
    lines.map (outlinedLine serde maxTokens) = lines := by
  rw [List.any_eq_false] at none
  rw [List.map_congr_left, List.map_id]
  intro line member
  have kept := none line member
  rw [Bool.not_eq_true, Option.isSome_eq_false_iff, Option.isNone_iff_eq_none] at kept
  rw [outlinedLine, kept]
  rfl

theorem outlineStep_spec {content : Text} {maxTokens : Nat} {lines rest : List Text} {line : Text}
    (split : content = (lines ++ line :: rest).flatten) :
    outlineStep serde content maxTokens (outlinedSoFar serde maxTokens lines) line =
      some (outlinedSoFar serde maxTokens (lines ++ [line])) := by
  have size : utf8Len (lines ++ [line]).flatten = utf8Len lines.flatten + utf8Len line := by
    rw [List.flatten_append, List.flatten_singleton, utf8Len_append]
  have before : getTo content (utf8Len lines.flatten) = some lines.flatten := by
    rw [split, List.flatten_append, getTo_append]
  have ending : getFrom line (utf8Len (lineBody line)) =
      some (line.drop (lineBody line).length) := by
    obtain ⟨behind, isLine⟩ := List.rdropWhile_prefix (fun c => c == '\r' || c == '\n') line
    change lineBody line ++ behind = line at isLine
    generalize lineBody line = body at isLine ⊢
    rw [← isLine, getFrom_append, List.drop_left]
  rw [outlineStep, outlinedSoFar, outlinedSoFar, size, List.any_append, List.map_append,
    List.flatten_append]
  simp only [List.any_cons, List.any_nil, Bool.or_false, List.map_cons, List.map_nil,
    List.flatten_singleton, outlinedLine]
  cases outlineLine serde maxTokens line with
  | none =>
    simp only [Option.isSome_none, Bool.or_false, Option.map_some, Option.some_inj, Prod.mk.injEq,
      true_and]
    split <;> rfl
  | some outline =>
    simp only [Option.isSome_some, Bool.or_true, if_true, ending, Option.map_some]
    split
    next some_ anySome =>
      split at anySome
      · obtain rfl := Option.some_inj.mp anySome
        rw [Option.bind_some, Option.map_some, List.append_assoc]
      · cases anySome
    next none_ =>
      split at none_
      · cases none_
      next none =>
        rw [Bool.not_eq_true] at none
        rw [before, Option.bind_some, Option.map_some, map_outlinedLine_of_none none,
          List.append_assoc]

theorem foldlM_outlineStep {content : Text} {maxTokens : Nat} {lines rest : List Text}
    (split : content = (lines ++ rest).flatten) :
    rest.foldlM (outlineStep serde content maxTokens) (outlinedSoFar serde maxTokens lines) =
      some (outlinedSoFar serde maxTokens (lines ++ rest)) := by
  induction rest generalizing lines with
  | nil => rw [List.append_nil]; rfl
  | cons line rest ih =>
    rw [List.foldlM_cons, outlineStep_spec split]
    have next := @ih (lines ++ [line]) (by rw [split, List.append_assoc]; rfl)
    rw [List.append_assoc, List.singleton_append] at next
    exact next

/-- The outlines replace the oversized JSON lines, where there are some. -/
theorem outlineOversizedJsonLines_eq (content : Text) (maxTokens : Nat) :
    outlineOversizedJsonLines serde content maxTokens =
      some (if (splitInclusive content).any fun line => (outlineLine serde maxTokens line).isSome
        then some (outlinedText serde content maxTokens) else none) := by
  have run := @foldlM_outlineStep serde content maxTokens [] (splitInclusive content)
    (by rw [List.nil_append, flatten_splitInclusive])
  have start : outlinedSoFar serde maxTokens [] = (0, none) := rfl
  rw [start, List.nil_append] at run
  rw [outlineOversizedJsonLines, run]
  rfl

end Outline

end Codex.Truncation
