import Codex.Lib.JsonText

/-!
# Compact JSON

Elements and members joined by single commas, and a colon between a key and its value.
-/

namespace Codex.JsonText

/-- Texts joined by single commas. -/
def commaJoin : List (List UInt8) → List UInt8
  | [] => []
  | [text] => text
  | text :: next :: texts => text ++ 44 :: commaJoin (next :: texts)

def array (elements : List (List UInt8)) : List UInt8 := 91 :: (commaJoin elements ++ [93])

/-- The bytes of a text. -/
def utf8 (text : String) : List UInt8 := text.toUTF8.data.toList

/-- A member of an object, from its key and the text of its value. -/
def member [StringWriter] (key : String) (value : List UInt8) : List UInt8 :=
  string (utf8 key) ++ 58 :: value

def object (members : List (List UInt8)) : List UInt8 := 123 :: (commaJoin members ++ [125])

/-- An `Option`, `null` where there is none. -/
def nullable {α : Type} (text : α → List UInt8) (value : Option α) : List UInt8 :=
  (value.map text).getD (ascii "null")

def bool (value : Bool) : List UInt8 := ascii (if value then "true" else "false")

theorem length_commaJoin (texts : List (List UInt8)) :
    (commaJoin texts).length = (texts.map List.length).sum + (texts.length - 1) := by
  induction texts with
  | nil => rfl
  | cons text texts ih =>
    cases texts with
    | nil => simp only [commaJoin, List.map_cons, List.map_nil, List.sum_cons, List.sum_nil,
        List.length_singleton, Nat.sub_self, Nat.add_zero]
    | cons next texts =>
      rw [commaJoin, List.length_append, List.length_cons, ih]
      simp only [List.map_cons, List.sum_cons, List.length_cons]
      omega

/-- The order of the texts does not matter to the length. -/
theorem length_commaJoin_perm {texts others : List (List UInt8)} (permuted : texts.Perm others) :
    (commaJoin texts).length = (commaJoin others).length := by
  rw [length_commaJoin, length_commaJoin, (permuted.map List.length).sum_nat, permuted.length_eq]

/-- What a text adds in front of others: itself, and a comma unless it is the only one. -/
theorem length_commaJoin_cons (text : List UInt8) (texts : List (List UInt8)) :
    (commaJoin (text :: texts)).length =
      (commaJoin texts).length + (text.length + if texts = [] then 0 else 1) := by
  rw [length_commaJoin, length_commaJoin, List.map_cons, List.sum_cons, List.length_cons]
  cases texts with
  | nil =>
    simp only [List.map_nil, List.sum_nil, List.length_nil, if_true]
    omega
  | cons next texts =>
    rw [if_neg (List.cons_ne_nil next texts), List.length_cons]
    omega

theorem length_array (elements : List (List UInt8)) :
    (array elements).length = (commaJoin elements).length + 2 := by
  rw [array, List.length_cons, List.length_append, List.length_singleton]

theorem length_object (members : List (List UInt8)) :
    (object members).length = (commaJoin members).length + 2 := by
  rw [object, List.length_cons, List.length_append, List.length_singleton]

theorem length_member [StringWriter] (key : String) (value : List UInt8) :
    (member key value).length = (string (utf8 key)).length + 1 + value.length := by
  rw [member, List.length_append, List.length_cons]
  omega

theorem utf8_injective {first second : String} (same : utf8 first = utf8 second) :
    first = second := by
  rw [← String.toByteArray_inj]
  exact ByteArray.ext (Array.toList_inj.mp same)

/-- The number that decimal digits stand for. -/
def digitsValue (digits : List UInt8) : Nat :=
  Nat.ofDigits 10 (digits.map fun digit => digit.toNat - 48).reverse

theorem toNat_digit {digit : Nat} (small : digit < 10) :
    (UInt8.ofNat (48 + digit)).toNat = 48 + digit := by
  rw [UInt8.toNat_ofNat']
  omega

theorem digitsValue_decimal (number : Nat) : digitsValue (decimal number) = number := by
  unfold decimal
  split
  · next zero =>
    rw [zero]
    rfl
  have digits : ((Nat.digits 10 number).reverse.map fun digit =>
      (UInt8.ofNat (48 + digit)).toNat - 48) = (Nat.digits 10 number).reverse := by
    rw [List.map_congr_left (g := id), List.map_id]
    intro digit member
    have small := Nat.digits_lt_base (by decide : 1 < 10) (List.mem_reverse.mp member)
    rw [toNat_digit small, Nat.add_sub_cancel_left]
    rfl
  rw [digitsValue, List.map_map, Function.comp_def, digits, List.reverse_reverse,
    Nat.ofDigits_digits]

theorem decimal_injective {first second : Nat} (same : decimal first = decimal second) :
    first = second := by
  rw [← digitsValue_decimal first, same, digitsValue_decimal]

theorem decimal_digits {number : Nat} : ∀ digit ∈ decimal number,
    48 ≤ digit.toNat ∧ digit.toNat < 58 := by
  unfold decimal
  split
  · intro digit member
    rw [List.mem_singleton.mp member]
    decide
  · intro byte member
    obtain ⟨digit, isDigit, rfl⟩ := List.mem_map.mp member
    have small := Nat.digits_lt_base (by decide : 1 < 10) (List.mem_reverse.mp isDigit)
    rw [toNat_digit small]
    omega

end Codex.JsonText
