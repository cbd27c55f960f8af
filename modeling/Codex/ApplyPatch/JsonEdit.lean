import Codex.ApplyPatch.Preflight
import Codex.Lib.JsonDocument

/-!
# Lexical JSON edits

`apply-patch/src/json_edit.rs`: operations with JSON pointers that change spans of the text of a
document. What serde_json reads is a parameter; offsets are in characters. The rendered messages of
errors are left out; an error says which check failed.
-/

namespace Codex.ApplyPatch.JsonEdit

open Codex.Text Codex.JsonDocument

def MAX_DOCUMENT_BYTES : Nat := 8 * 1024 * 1024

/-- `OperationKind` (`json_edit.rs:90`). -/
inductive OperationKind where
  | add
  | replace
  | remove
  deriving DecidableEq, Repr

/-- `Operation` (`json_edit.rs:80`); the value is its own text. -/
structure Operation where
  op : OperationKind
  path : Text
  value : Option Text
  deriving DecidableEq, Repr

/-- What is used of serde_json. A raw value is the offset and the length of its text: that of the
    whole document in its source, and those of elements and members, with their decoded keys, in
    the text of their container. -/
structure SerdeJson where
  rawValue : Text → Except Text (Nat × Nat)
  elements : Text → Except Text (List (Nat × Nat))
  members : Text → Except Text (List (Text × Nat × Nat))
  encodeString : Text → Text
  operations : Text → Except Text (List Operation)

inductive JsonError where
  | chunkCount
  | hashForm
  | hash (error : SourceHashRefError)
  | hashChanged
  | notOnlyAddedLines
  | serde (message : Text)
  | noOperations
  | tooLarge
  | tooDeep
  | duplicateKey (key : Text)
  | memberAddress
  | pointerForm
  | pointerEscape
  | indexForm
  | indexTooLarge
  | indexOutOfBounds
  | removeWithValue
  | valueMissing
  | removeRoot
  | traversesScalar
  | parentMissing
  | scalarParent
  | targetMissing
  | separator
  deriving DecidableEq, Repr

/-- `Entry` (`json_edit.rs:110`). -/
structure NodeEntry (α : Type) where
  key : Option Text
  start : Nat
  value : α

/-- `Node` (`json_edit.rs:104`). -/
inductive Node where
  | mk (start stop : Nat) (children : Option (List (NodeEntry Node))) (object : Bool)

namespace Node

def start : Node → Nat
  | mk start _ _ _ => start

def stop : Node → Nat
  | mk _ stop _ _ => stop

def children : Node → Option (List (NodeEntry Node))
  | mk _ _ children _ => children

def object : Node → Bool
  | mk _ _ _ object => object

end Node

instance : Inhabited (NodeEntry Node) := ⟨⟨none, 0, .mk 0 0 none false⟩⟩

/-- `&source[start..stop]`. -/
def slice (source : Text) (start stop : Nat) : Text := (source.drop start).take (stop - start)

/-- The offset of the first character in a range. -/
def findIn (source : Text) (start stop : Nat) (c : Char) : Option Nat :=
  ((slice source start stop).idxOf? c).map (start + ·)

section Reading

variable (serde : SerdeJson) (source : Text)

/-- `visit_seq` (`json_edit.rs:173`), on the spans of the elements. -/
def visitSeq (node : Nat → Nat → Except JsonError Node) (container : Nat) :
    List (Nat × Nat) → Except JsonError (List (NodeEntry Node))
  | [] => .ok []
  | (offset, len) :: rest =>
      match node (container + offset) len with
      | .error error => .error error
      | .ok value =>
          match visitSeq node container rest with
          | .error error => .error error
          | .ok entries => .ok (⟨none, value.start, value⟩ :: entries)

/-- `visit_map` (`json_edit.rs:189`), on the keys and the spans of the members. -/
def visitMap (node : Nat → Nat → Except JsonError Node) (container : Nat) :
    List Text → Nat → List (Text × Nat × Nat) → Except JsonError (List (NodeEntry Node))
  | _, _, [] => .ok []
  | keys, previousEnd, (key, offset, len) :: rest =>
      if keys.contains key then .error (.duplicateKey key)
      else
        match node (container + offset) len with
        | .error error => .error error
        | .ok value =>
            match findIn source previousEnd value.start '"' with
            | none => .error .memberAddress
            | some start =>
                match visitMap node container (key :: keys) value.stop rest with
                | .error error => .error error
                | .ok entries => .ok (⟨some key, start, value⟩ :: entries)

/-- `node` (`json_edit.rs:133`), with the number of levels that are left. -/
def node : Nat → Nat → Nat → Except JsonError Node
  | 0, _, _ => .error .tooDeep
  | levels + 1, start, len =>
      let text := slice source start (start + len)
      if text.head? = some '{' then
        match serde.members text with
        | .error message => .error (.serde message)
        | .ok members =>
            (visitMap source (node levels) start [] (start + 1) members).map fun entries =>
              .mk start (start + len) (some entries) true
      else if text.head? = some '[' then
        match serde.elements text with
        | .error message => .error (.serde message)
        | .ok elements =>
            (visitSeq (node levels) start elements).map fun entries =>
              .mk start (start + len) (some entries) false
      else .ok (.mk start (start + len) none false)

/-- `parse` (`json_edit.rs:116`); depths up to 128 are read. -/
def parse : Except JsonError Node :=
  if MAX_DOCUMENT_BYTES < utf8Len source then .error .tooLarge
  else
    match serde.rawValue source with
    | .error message => .error (.serde message)
    | .ok (start, len) => node serde source 129 start len

end Reading

/-- A token of a pointer with its escapes decoded. -/
def unescape : Text → Except JsonError Text
  | [] => .ok []
  | c :: text =>
      if c = '~' then
        match text with
        | [] => .error .pointerEscape
        | d :: text =>
            if d = '0' then (unescape text).map ('~' :: ·)
            else if d = '1' then (unescape text).map ('/' :: ·)
            else .error .pointerEscape
      else (unescape text).map (c :: ·)

/-- `pointer` (`json_edit.rs:207`). -/
def pointer (path : Text) : Except JsonError (List Text) :=
  if path = [] then .ok []
  else
    match stripPrefix ['/'] path with
    | none => .error .pointerForm
    | some path => (path.splitOn '/').mapM unescape

/-- `array_index` (`json_edit.rs:235`). -/
def arrayIndex (token : Text) (len : Nat) (add : Bool) : Except JsonError Nat :=
  if add ∧ token = ['-'] then .ok len
  else if token = [] ∨ (1 < token.length ∧ token.head? = some '0') ∨
      token.all Char.isDigit = false then
    .error .indexForm
  else
    let index := Nat.ofDigitChars 10 token 0
    if 2 ^ 64 ≤ index then .error .indexTooLarge
    else if len < index ∨ (add = false ∧ index = len) then .error .indexOutOfBounds
    else .ok index

/-- `separator_end` (`json_edit.rs:376`). -/
def separatorEnd (source : Text) (left right : Nat) : Except JsonError Nat :=
  match findIn source left right ',' with
  | some comma => .ok (comma + 1)
  | none => .error .separator

/-- `indent_unit` (`json_edit.rs:383`). -/
def indentUnit (source : Text) : Text :=
  (((source.splitOn '\n').map (·.takeWhile fun c => c == ' ' || c == '\t')).find?
    (!·.isEmpty)).getD [' ', ' ']

/-- `&prefix[prefix.rfind(':')…]`. -/
def fromLastColon (text : Text) : Text :=
  if ':' ∈ text then ':' :: text.rtakeWhile (· != ':') else []

def entryAt (children : List (NodeEntry Node)) (index : Nat) : NodeEntry Node :=
  children.getD index default

/-- The range that goes when a child is removed (`json_edit.rs:312`). -/
def removal (source : Text) (parent : Node) (children : List (NodeEntry Node)) (index : Nat) :
    Except JsonError (Nat × Nat) :=
  let entry := entryAt children index
  if index + 1 < children.length then
    match (if index = 0 then .ok (parent.start + 1)
      else separatorEnd source (entryAt children (index - 1)).value.stop entry.start) with
    | .error error => .error error
    | .ok start =>
        (separatorEnd source entry.value.stop (entryAt children (index + 1)).start).map (start, ·)
  else if 0 < index then
    (separatorEnd source (entryAt children (index - 1)).value.stop entry.start).map fun comma =>
      (comma - 1, entry.value.stop)
  else .ok (entry.start, entry.value.stop)

/-- The text of a new child (`json_edit.rs:331`). -/
def memberText (serde : SerdeJson) (source : Text) (parent : Node)
    (children : List (NodeEntry Node)) (last value : Text) : Text :=
  if parent.object then
    let colon :=
      match children.head? with
      | some entry => fromLastColon (slice source entry.start entry.value.start)
      | none => [':', ' ']
    serde.encodeString last ++ colon ++ value
  else value

/-- Where a new child goes, and its text with its separator (`json_edit.rs:347`). -/
def insertion (source : Text) (parent : Node) (children : List (NodeEntry Node)) (index : Nat)
    (member : Text) : Except JsonError ((Nat × Nat) × Text) :=
  if children.isEmpty then
    let inner := slice source (parent.start + 1) (parent.stop - 1)
    if '\n' ∈ inner then
      .ok ((parent.start + 1, parent.start + 1), inner ++ indentUnit source ++ member)
    else .ok ((parent.stop - 1, parent.stop - 1), member ++ inner)
  else
    let sibling := min index (children.length - 1)
    match (if sibling = 0 then .ok (parent.start + 1)
      else separatorEnd source (entryAt children (sibling - 1)).value.stop
        (entryAt children sibling).start) with
    | .error error => .error error
    | .ok separatorStart =>
        let whitespace := slice source separatorStart (entryAt children sibling).start
        if index < children.length then
          let start := (entryAt children index).start
          .ok ((start, start), member ++ ',' :: whitespace)
        else
          let stop := (entryAt children (children.length - 1)).value.stop
          .ok ((stop, stop), ',' :: (whitespace ++ member))

/-- The edit of a child of a container (`json_edit.rs:293`). -/
def editChild (serde : SerdeJson) (source : Text) (parent : Node)
    (children : List (NodeEntry Node)) (last : Text) (replacement : Option Text) (add : Bool) :
    Except JsonError ((Nat × Nat) × Text) :=
  let found : Except JsonError (Option Nat) :=
    if parent.object then .ok (children.findIdx? fun entry => entry.key == some last)
    else (arrayIndex last children.length add).map some
  let insert (index : Option Nat) : Except JsonError ((Nat × Nat) × Text) :=
    match replacement with
    | none => .error .valueMissing
    | some value =>
        insertion source parent children (index.getD children.length)
          (memberText serde source parent children last value)
  match found with
  | .error error => .error error
  | .ok index =>
      match index.filter fun index => decide (index < children.length) with
      | some present =>
          if !add || parent.object then
            match replacement with
            | some value =>
                .ok (((entryAt children present).value.start,
                  (entryAt children present).value.stop), value)
            | none => (removal source parent children present).map fun range => (range, [])
          else insert index
      | none => if add then insert index else .error .targetMissing

/-- The walk to the parent (`json_edit.rs:275`). -/
def walk : Node → List Text → Except JsonError Node
  | parent, [] => .ok parent
  | parent, token :: rest =>
      match parent.children with
      | none => .error .traversesScalar
      | some children =>
          match (if parent.object then
              match children.findIdx? fun entry => entry.key == some token with
              | some index => .ok index
              | none => .error .parentMissing
            else arrayIndex token children.length false) with
          | .error error => .error error
          | .ok index => walk (entryAt children index).value rest

/-- `edit` (`json_edit.rs:251`). -/
def edit (serde : SerdeJson) (source : Text) (root : Node) (operation : Operation) :
    Except JsonError ((Nat × Nat) × Text) :=
  match operation.op, operation.value with
  | .remove, some _ => .error .removeWithValue
  | .add, none | .replace, none => .error .valueMissing
  | op, replacement =>
      match pointer operation.path with
      | .error error => .error error
      | .ok tokens =>
          match tokens.getLast? with
          | none =>
              match replacement with
              | some value => .ok ((root.start, root.stop), value)
              | none => .error .removeRoot
          | some last =>
              match walk root tokens.dropLast with
              | .error error => .error error
              | .ok parent =>
                  match parent.children with
                  | none => .error .scalarParent
                  | some children =>
                      editChild serde source parent children last replacement (op == .add)

/-- `String::replace_range`. -/
def replaceRange (source : Text) (range : Nat × Nat) (replacement : Text) : Text :=
  source.take range.1 ++ replacement ++ source.drop range.2

/-- The loop over the operations. -/
def applyOperations (serde : SerdeJson) : Text → List Operation → Except JsonError Text
  | result, [] => .ok result
  | result, operation :: rest =>
      match parse serde result with
      | .error error => .error error
      | .ok root =>
          match edit serde result root operation with
          | .error error => .error error
          | .ok (range, replacement) =>
              applyOperations serde (replaceRange result range replacement) rest

/-- `apply` (`json_edit.rs:27`). -/
def apply (serde : SerdeJson) (sha256 : Text → Text) (source : Text)
    (chunks : List UpdateFileChunk) (newline : Text) : Except JsonError Text :=
  match chunks with
  | [chunk] =>
      match chunk.changeContext.bind (stripPrefix "codex-json sha256:".toList) with
      | none => .error .hashForm
      | some hash =>
          match SourceHashRef.parse hash with
          | .error error => .error (.hash error)
          | .ok hash =>
              if !hash.accepts (sha256 source) then .error .hashChanged
              else if !chunk.oldLines.isEmpty || chunk.isEndOfFile || chunk.newLines.isEmpty ||
                  chunk.lineKinds.any (· != .add) then
                .error .notOnlyAddedLines
              else
                let payload := newline.intercalate chunk.newLines
                match parse serde payload with
                | .error error => .error error
                | .ok _ =>
                    match serde.operations payload with
                    | .error message => .error (.serde message)
                    | .ok operations =>
                        if operations.isEmpty then .error .noOperations
                        else
                          match applyOperations serde source operations with
                          | .error error => .error error
                          | .ok result => (parse serde result).map fun _ => result
  | _ => .error .chunkCount

end Codex.ApplyPatch.JsonEdit
