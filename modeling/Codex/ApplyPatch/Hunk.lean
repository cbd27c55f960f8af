import Codex.Lib.Text
import Mathlib.Tactic.IntervalCases

/-!
# Patches

The data of a parsed patch: `apply-patch/src/parser.rs` and `apply-patch/src/source_hash.rs`.
Paths and contents are text; a `PathBuf` is only built from the text of a patch line and
shown as that text.
-/

namespace Codex.ApplyPatch

open Codex.Text

def MIN_PREFIX_LEN : Nat := 12

def FULL_LEN : Nat := 64

/-- `u8::is_ascii_hexdigit`. -/
def isAsciiHexdigit (c : Char) : Bool :=
  ('0' ≤ c && c ≤ '9') || ('a' ≤ c && c ≤ 'f') || ('A' ≤ c && c ≤ 'F')

/-- `char::to_ascii_lowercase`. -/
def toAsciiLowercase (c : Char) : Char :=
  if 'A' ≤ c ∧ c ≤ 'Z' then Char.ofNat (c.toNat + 32) else c

/-- What `SourceHashRef` stores: 12 to 64 lowercase hexadecimal digits. -/
def IsSourceHash (text : Text) : Prop :=
  MIN_PREFIX_LEN ≤ text.length ∧ text.length ≤ FULL_LEN ∧
    ∀ c ∈ text, isAsciiHexdigit c = true ∧ toAsciiLowercase c = c

/-- `SourceHashRef` (`source_hash.rs:14`). Only `parse` builds one. -/
structure SourceHashRef where
  hash : Text
  wellFormed : IsSourceHash hash
  deriving DecidableEq

inductive SourceHashRefError where
  | tooShort (length : Nat)
  | tooLong (length : Nat)
  | notHex
  deriving DecidableEq, Repr

/-- `SourceHashRef::FORM`. -/
def SourceHashRef.FORM : Text :=
  ("sha256:<hex prefix of the whole-file raw source_sha256: at least 12 characters, " ++
    "up to all 64>").toList

/-- The `Display` text of `SourceHashRefError`. -/
def SourceHashRefError.display (error : SourceHashRefError) : Text :=
  let reason :=
    match error with
    | .tooShort length => (toString length ++ " hex characters is fewer than 12").toList
    | .tooLong length => (toString length ++ " characters is more than the 64 of a SHA-256").toList
    | .notHex => "it contains a non-hexadecimal character".toList
  "invalid source hash (".toList ++ reason ++ "); expected ".toList ++ SourceHashRef.FORM

theorem char_le_iff {a b : Char} : a ≤ b ↔ a.toNat ≤ b.toNat := Iff.rfl

/-- The lowercase form of a hexadecimal digit is a lowercase hexadecimal digit. -/
theorem toAsciiLowercase_hex {c : Char} (hex : isAsciiHexdigit c = true) :
    isAsciiHexdigit (toAsciiLowercase c) = true ∧
      toAsciiLowercase (toAsciiLowercase c) = toAsciiLowercase c := by
  by_cases upper : 'A' ≤ c ∧ c ≤ 'Z'
  · simp only [isAsciiHexdigit, Bool.or_eq_true, Bool.and_eq_true, decide_eq_true_eq,
      char_le_iff] at hex upper
    have codes : 65 ≤ c.toNat ∧ c.toNat ≤ 70 := by
      have nine : '9'.toNat = 57 := rfl
      have lowerA : 'a'.toNat = 97 := rfl
      have upperA : 'A'.toNat = 65 := rfl
      have upperF : 'F'.toNat = 70 := rfl
      have upperZ : 'Z'.toNat = 90 := rfl
      omega
    obtain ⟨low, high⟩ := codes
    rw [← Char.ofNat_toNat c]
    generalize c.toNat = code at low high
    interval_cases code <;> decide
  · have same : toAsciiLowercase c = c := if_neg upper
    rw [same]
    exact ⟨hex, same⟩

/-- `SourceHashRef::parse`. The bytes of a hexadecimal text are its characters. -/
def SourceHashRef.parse (text : Text) : Except SourceHashRefError SourceHashRef :=
  if hex : text.all isAsciiHexdigit = true then
    if short : text.length < MIN_PREFIX_LEN then .error (.tooShort text.length)
    else if long : FULL_LEN < text.length then .error (.tooLong text.length)
    else
      .ok ⟨text.map toAsciiLowercase, by
        refine ⟨by simpa using short, by simpa using long, ?_⟩
        intro c member
        obtain ⟨original, written, rfl⟩ := List.mem_map.mp member
        exact toAsciiLowercase_hex (List.all_eq_true.mp hex original written)⟩
  else .error .notHex

structure FileRevisionGuard where
  path : Text
  expectedSha256 : Option SourceHashRef
  deriving DecidableEq

inductive UpdateLineKind where
  | context
  | add
  | remove
  deriving DecidableEq, Repr

/-- `UpdateFileChunk` (`parser.rs:92`). -/
structure UpdateFileChunk where
  changeContext : Option Text := none
  oldLines : List Text := []
  newLines : List Text := []
  lineKinds : List UpdateLineKind := []
  isEndOfFile : Bool := false
  deriving DecidableEq, Repr

inductive Hunk where
  | addFile (path contents : Text)
  | deleteFile (path : Text)
  | updateFile (path : Text) (movePath : Option Text) (chunks : List UpdateFileChunk)
  deriving DecidableEq, Repr

/-- `ParseError` (`parser.rs:35`). -/
inductive ParseError where
  | invalidPatchError (message : Text)
  | invalidHunkError (message : Text) (lineNumber : Nat)
  deriving DecidableEq, Repr

/-- `ApplyPatchArgs`; its working directory is never set by the parser. -/
structure ApplyPatchArgs where
  hunks : List Hunk
  revisionGuards : List FileRevisionGuard
  patch : Text
  environmentId : Option Text
  deriving DecidableEq

theorem Except.map_eq_ok {ε α β : Type} {result : Except ε α} {change : α → β} {value : β}
    (mapped : result.map change = .ok value) : ∃ before, result = .ok before ∧
      change before = value := by
  cases result with
  | error error => cases mapped
  | ok before => exact ⟨before, rfl, Except.ok.inj mapped⟩

end Codex.ApplyPatch
