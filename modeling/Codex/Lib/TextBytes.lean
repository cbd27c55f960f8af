import Codex.Lib.Text

/-!
# Bytes of a text

`str::as_bytes`: the UTF-8 encoding of its scalar values.
-/

namespace Codex.Text

/-- `str::as_bytes`. -/
def bytes (text : Text) : List UInt8 := text.flatMap String.utf8EncodeChar

/-- The character of an ASCII byte. -/
def ofByte (byte : UInt8) : Char := Char.ofNat byte.toNat

theorem utf8EncodeChar_ofByte {byte : UInt8} (ascii : byte.toNat < 128) :
    String.utf8EncodeChar (ofByte byte) = [byte] := by
  have each : ∀ value < 128, String.utf8EncodeChar (Char.ofNat value) = [UInt8.ofNat value] := by
    decide
  rw [ofByte, each byte.toNat ascii, UInt8.ofNat_toNat]

end Codex.Text
