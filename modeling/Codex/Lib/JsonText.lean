import Codex.Lib.Machine

/-!
# The texts of JSON strings and numbers

What a compact JSON writer puts out for a string and for an unsigned number, as bytes. Of the
writer of strings only what it promises is known.
-/

namespace Codex.JsonText

/-- The bytes of an ASCII text. -/
def ascii (text : String) : List UInt8 := text.toList.map (fun c => UInt8.ofNat c.toNat)

/-- The decimal digits of a number. -/
def decimal (number : Nat) : List UInt8 :=
  if number = 0 then [48]
  else (Nat.digits 10 number).reverse.map (fun digit => UInt8.ofNat (48 + digit))

theorem length_decimal (number : Nat) : (decimal number).length = Nat.log 10 number + 1 := by
  unfold decimal
  split
  · next zero =>
    subst zero
    simp
  · next positive =>
    rw [List.length_map, List.length_reverse, Nat.length_digits 10 number (by omega) positive]

/-- A writer of strings, by their bytes: quoted, told apart whatever stands behind them, and with
    at most six bytes for one. Quotes, backslashes and control characters are escaped. -/
class StringWriter where
  string : List UInt8 → List UInt8
  string_quoted : ∀ bytes, ∃ rest, string bytes = 34 :: rest
  string_inj : ∀ {first second rest more}, string first ++ rest = string second ++ more →
    first = second ∧ rest = more
  string_plain : ∀ {bytes}, (∀ byte ∈ bytes, byte ≠ 34 ∧ byte ≠ 92 ∧ 32 ≤ byte.toNat) →
    string bytes = 34 :: (bytes ++ [34])
  length_string_le : ∀ bytes, (string bytes).length ≤ bytes.length * 6 + 2
  length_le_string : ∀ bytes, bytes.length + 2 ≤ (string bytes).length

export StringWriter (string string_quoted string_inj string_plain length_string_le
  length_le_string)

namespace Visible

/-- The escape of a byte that is not a control character. -/
def escapeByte (byte : UInt8) : List UInt8 :=
  if byte = 34 ∨ byte = 92 then [92, byte] else [byte]

def escape (bytes : List UInt8) : List UInt8 := bytes.flatMap escapeByte

theorem escape_cons (byte : UInt8) (bytes : List UInt8) :
    escape (byte :: bytes) = escapeByte byte ++ escape bytes := rfl

theorem length_escape (bytes : List UInt8) :
    bytes.length ≤ (escape bytes).length ∧ (escape bytes).length ≤ bytes.length * 6 := by
  induction bytes with
  | nil => exact ⟨Nat.le_refl 0, Nat.le_refl 0⟩
  | cons byte bytes ih =>
    have first : 1 ≤ (escapeByte byte).length ∧ (escapeByte byte).length ≤ 2 := by
      unfold escapeByte
      split <;> simp
    simp only [escape_cons, List.length_append, List.length_cons]
    omega

theorem escape_plain {bytes : List UInt8}
    (plain : ∀ byte ∈ bytes, byte ≠ 34 ∧ byte ≠ 92 ∧ 32 ≤ byte.toNat) : escape bytes = bytes := by
  induction bytes with
  | nil => rfl
  | cons byte bytes ih =>
    obtain ⟨⟨quote, backslash, _⟩, later⟩ := List.forall_mem_cons.mp plain
    rw [escape_cons, escapeByte, if_neg (by simp [quote, backslash]), ih later]
    rfl

/-- Two escaped texts with a quote behind each are told apart by their bytes. -/
theorem escape_inj {first second rest more : List UInt8}
    (same : escape first ++ 34 :: rest = escape second ++ 34 :: more) :
    first = second ∧ rest = more := by
  have head : ∀ {byte bytes tail}, escapeByte byte ++ bytes ≠ 34 :: tail := by
    intro byte bytes tail
    unfold escapeByte
    split
    · simp
    · next neither =>
      push Not at neither
      simp [neither.1]
  induction first generalizing second with
  | nil =>
    cases second with
    | nil => exact ⟨rfl, (List.cons.inj same).2⟩
    | cons byte second =>
      rw [escape_cons, List.append_assoc] at same
      exact absurd same.symm head
  | cons byte first ih =>
    rw [escape_cons, List.append_assoc] at same
    cases second with
    | nil => exact absurd same head
    | cons other second =>
      rw [escape_cons, List.append_assoc] at same
      have split : byte = other ∧ escape first ++ 34 :: rest = escape second ++ 34 :: more := by
        unfold escapeByte at same
        split at same <;> split at same <;> simp_all
      obtain ⟨rfl, later⟩ := split
      obtain ⟨rfl, sameRest⟩ := ih later
      exact ⟨rfl, sameRest⟩

end Visible

/-- A writer of strings without control characters. -/
@[reducible] def visible : StringWriter where
  string bytes := 34 :: (Visible.escape bytes ++ [34])
  string_quoted _ := ⟨_, rfl⟩
  string_inj same := by
    simp only [List.cons_append, List.append_assoc, List.cons.injEq, true_and] at same
    exact Visible.escape_inj same
  string_plain plain := by rw [Visible.escape_plain plain]
  length_string_le bytes := by simpa using (Visible.length_escape bytes).2
  length_le_string bytes := by simpa using (Visible.length_escape bytes).1

end Codex.JsonText
