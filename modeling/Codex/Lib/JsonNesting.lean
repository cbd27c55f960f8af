import Mathlib.Data.List.Basic

/-!
# Nesting of JSON texts

The text of a JSON value, with what stands between its tokens left open: whitespace, commas,
colons, and the letters and digits of literals and numbers are bytes that neither open nor close
anything. Quotes and brackets inside a string are part of the string.
-/

namespace Codex

/-- A byte outside of strings that neither opens nor closes anything. -/
def isFiller (byte : UInt8) : Bool :=
  byte ≠ 34 && byte ≠ 91 && byte ≠ 93 && byte ≠ 123 && byte ≠ 125

/-- What is between two tokens, or a token that is no string and no bracket. -/
abbrev Filler := { bytes : List UInt8 // bytes.all isFiller = true }

/-- A part of the body of a string: a byte that stands for itself, or a backslash and the byte that
    it escapes. -/
inductive StringPart where
  | plain (byte : UInt8) (isPlain : (byte ≠ 34 && byte ≠ 92) = true)
  | escaped (byte : UInt8)

def StringPart.text : StringPart → List UInt8
  | plain byte _ => [byte]
  | escaped byte => [92, byte]

/-- The source of a JSON value. -/
inductive JsonSource where
  | bare (token : Filler)
  | string (parts : List StringPart)
  | container (isObject : Bool) (inside : List (Filler × JsonSource)) (last : Filler)

namespace JsonSource

def openByte (isObject : Bool) : UInt8 := if isObject then 123 else 91

def closeByte (isObject : Bool) : UInt8 := if isObject then 125 else 93

mutual

/-- The bytes of a value. -/
def text : JsonSource → List UInt8
  | bare token => token.1
  | string parts => 34 :: (parts.flatMap StringPart.text ++ [34])
  | container isObject inside last =>
      openByte isObject :: (textInside inside ++ last.1 ++ [closeByte isObject])

def textInside : List (Filler × JsonSource) → List UInt8
  | [] => []
  | (between, value) :: inside => between.1 ++ text value ++ textInside inside

end

mutual

/-- The number of containers around the innermost one, with that one. -/
def nesting : JsonSource → Nat
  | bare _ | string _ => 0
  | container _ inside _ => nestingInside inside + 1

def nestingInside : List (Filler × JsonSource) → Nat
  | [] => 0
  | (_, value) :: inside => max (nesting value) (nestingInside inside)

end

end JsonSource

end Codex
