import Codex.Lib.Machine

/-!
# Base64

An engine of the `base64` crate, by what it promises, and the standard one: its alphabet, and
padding. Three bytes are four characters; a last group of one or two bytes is padded. The decoder
accepts canonical texts only: padding is required, and the bits that a padded group leaves over are
zero.
-/

namespace Codex.Base64

/-- An encoder and a decoder of whole texts, with the bytes that a text of a length decodes to at
    most. -/
class Engine where
  encode : List UInt8 → List UInt8
  decode : List UInt8 → Option (List UInt8)
  decodedLenEstimate : Nat → Nat
  decode_encode : ∀ bytes, decode (encode bytes) = some bytes
  length_encode : ∀ bytes, (encode bytes).length = (bytes.length + 2) / 3 * 4
  /-- No character of a text is escaped in JSON. -/
  plain_encode : ∀ bytes, ∀ byte ∈ encode bytes, byte ≠ 34 ∧ byte ≠ 92 ∧ 32 ≤ byte.toNat
  length_decode : ∀ {text bytes}, decode text = some bytes →
    bytes.length ≤ decodedLenEstimate text.length

export Engine (encode decode decodedLenEstimate decode_encode length_encode plain_encode
  length_decode)

/-- Decoding into a slice with room for this many bytes: the decoded bytes, when they fit. -/
def decodeSlice [Engine] (text : List UInt8) (room : Nat) : Option (List UInt8) :=
  (decode text).filter (fun bytes => bytes.length ≤ room)

theorem decodeSlice_eq_some [Engine] {text bytes : List UInt8} {room : Nat} :
    decodeSlice text room = some bytes ↔ decode text = some bytes ∧ bytes.length ≤ room := by
  simp [decodeSlice, Option.filter_eq_some_iff]

namespace Standard

/-- The character of a six-bit value. -/
def character (value : Nat) : UInt8 :=
  if value < 26 then UInt8.ofNat (65 + value)
  else if value < 52 then UInt8.ofNat (71 + value)
  else if value < 62 then UInt8.ofNat (value - 4)
  else if value = 62 then 43
  else 47

/-- The six-bit value of a character. -/
def value (c : UInt8) : Option Nat :=
  if 65 ≤ c.toNat ∧ c.toNat ≤ 90 then some (c.toNat - 65)
  else if 97 ≤ c.toNat ∧ c.toNat ≤ 122 then some (c.toNat - 71)
  else if 48 ≤ c.toNat ∧ c.toNat ≤ 57 then some (c.toNat + 4)
  else if c = 43 then some 62
  else if c = 47 then some 63
  else none

/-- The padding character. -/
def PAD : UInt8 := 61

def encode : List UInt8 → List UInt8
  | [] => []
  | [a] => [character (a.toNat / 4), character (a.toNat % 4 * 16), PAD, PAD]
  | [a, b] =>
      [character (a.toNat / 4), character (a.toNat % 4 * 16 + b.toNat / 16),
        character (b.toNat % 16 * 4), PAD]
  | a :: b :: c :: rest =>
      character (a.toNat / 4) :: character (a.toNat % 4 * 16 + b.toNat / 16) ::
        character (b.toNat % 16 * 4 + c.toNat / 64) :: character (c.toNat % 64) :: encode rest

/-- A group of four characters without padding. -/
def decodeGroup (a b c d : UInt8) : Option (List UInt8) := do
  let p ← value a
  let q ← value b
  let r ← value c
  let s ← value d
  return [UInt8.ofNat (p * 4 + q / 16), UInt8.ofNat (q % 16 * 16 + r / 4),
    UInt8.ofNat (r % 4 * 64 + s)]

/-- The last group, which may be padded. -/
def decodeLast (a b c d : UInt8) : Option (List UInt8) :=
  if d = PAD then do
    let p ← value a
    let q ← value b
    if c = PAD then
      if q % 16 = 0 then return [UInt8.ofNat (p * 4 + q / 16)] else none
    else
      let r ← value c
      if r % 4 = 0 then
        return [UInt8.ofNat (p * 4 + q / 16), UInt8.ofNat (q % 16 * 16 + r / 4)]
      else none
  else decodeGroup a b c d

def decode : List UInt8 → Option (List UInt8)
  | [] => some []
  | [a, b, c, d] => decodeLast a b c d
  | a :: b :: c :: d :: rest => do
      let group ← decodeGroup a b c d
      let bytes ← decode rest
      return group ++ bytes
  | _ => none

def decodedLenEstimate (length : Nat) : Nat :=
  (length / 4 + if length % 4 = 0 then 0 else 1) * 3

theorem value_character {v : Nat} (bound : v < 64) : value (character v) = some v := by
  have all : ∀ v : Fin 64, value (character v) = some v.val := by decide
  exact all ⟨v, bound⟩

theorem character_ne_pad {v : Nat} (bound : v < 64) : character v ≠ PAD := by
  have all : ∀ v : Fin 64, character v ≠ PAD := by decide
  exact all ⟨v, bound⟩

variable {a b c d : UInt8} {bytes : List UInt8}

theorem ofNat_eq {n : Nat} (same : n = a.toNat) : UInt8.ofNat n = a := by
  rw [same, UInt8.ofNat_toNat]

theorem decodeGroup_encode (a b c : UInt8) :
    decodeGroup (character (a.toNat / 4)) (character (a.toNat % 4 * 16 + b.toNat / 16))
      (character (b.toNat % 16 * 4 + c.toNat / 64)) (character (c.toNat % 64)) =
        some [a, b, c] := by
  have boundA := a.toNat_lt
  have boundB := b.toNat_lt
  have boundC := c.toNat_lt
  unfold decodeGroup
  rw [value_character (by omega), value_character (by omega), value_character (by omega),
    value_character (by omega)]
  dsimp only [Option.bind_eq_bind, Option.bind_some, Option.pure_def]
  rw [@ofNat_eq a _ (by omega), @ofNat_eq b _ (by omega), @ofNat_eq c _ (by omega)]

theorem decodeLast_single (a : UInt8) :
    decodeLast (character (a.toNat / 4)) (character (a.toNat % 4 * 16)) PAD PAD = some [a] := by
  have boundA := a.toNat_lt
  unfold decodeLast
  rw [value_character (by omega), value_character (by omega)]
  dsimp only [Option.bind_eq_bind, Option.bind_some, Option.pure_def]
  rw [if_pos rfl, if_pos rfl, if_pos (by omega), @ofNat_eq a _ (by omega)]

theorem decodeLast_pair (a b : UInt8) :
    decodeLast (character (a.toNat / 4)) (character (a.toNat % 4 * 16 + b.toNat / 16))
      (character (b.toNat % 16 * 4)) PAD = some [a, b] := by
  have boundA := a.toNat_lt
  have boundB := b.toNat_lt
  unfold decodeLast
  rw [value_character (by omega), value_character (by omega), value_character (by omega)]
  dsimp only [Option.bind_eq_bind, Option.bind_some, Option.pure_def]
  rw [if_pos rfl, if_neg (character_ne_pad (by omega)), if_pos (by omega),
    @ofNat_eq a _ (by omega), @ofNat_eq b _ (by omega)]

theorem decode_group {group rest : List UInt8} (full : d ≠ PAD)
    (first : decodeGroup a b c d = some group) (others : decode rest = some bytes) :
    decode (a :: b :: c :: d :: rest) = some (group ++ bytes) := by
  cases rest with
  | nil =>
    cases others
    rw [List.append_nil, decode, decodeLast, if_neg full, first]
  | cons e rest =>
    rw [decode, first, others]
    · rfl
    · simp

theorem decode_encode (bytes : List UInt8) : decode (encode bytes) = some bytes := by
  fun_induction encode bytes with
  | case1 => rfl
  | case2 a => exact decodeLast_single a
  | case3 a b => exact decodeLast_pair a b
  | case4 a b c rest ih =>
    have boundC := c.toNat_lt
    exact decode_group (character_ne_pad (by omega)) (decodeGroup_encode a b c) ih

theorem length_encode (bytes : List UInt8) : (encode bytes).length = (bytes.length + 2) / 3 * 4 := by
  fun_induction encode bytes with
  | case1 => rfl
  | case2 a => simp
  | case3 a b => simp
  | case4 a b c rest ih =>
    simp only [List.length_cons, ih]
    omega

theorem decodeGroup_length (decoded : decodeGroup a b c d = some bytes) : bytes.length = 3 := by
  simp only [decodeGroup, Option.bind_eq_bind, Option.bind_eq_some_iff, Option.pure_def,
    Option.some.injEq] at decoded
  obtain ⟨p, -, q, -, r, -, s, -, rfl⟩ := decoded
  rfl

theorem decodeLast_length (decoded : decodeLast a b c d = some bytes) : bytes.length ≤ 3 := by
  unfold decodeLast at decoded
  split at decoded
  · simp only [Option.bind_eq_bind, Option.bind_eq_some_iff] at decoded
    obtain ⟨p, -, q, -, decoded⟩ := decoded
    split at decoded
    · split at decoded
      · cases decoded
        exact Nat.le_of_ble_eq_true rfl
      · cases decoded
    · obtain ⟨r, -, decoded⟩ := Option.bind_eq_some_iff.mp decoded
      split at decoded
      · cases decoded
        exact Nat.le_of_ble_eq_true rfl
      · cases decoded
  · exact (decodeGroup_length decoded).le

/-- The estimate bounds every decoded text. -/
theorem length_decode {text : List UInt8} (decoded : decode text = some bytes) :
    bytes.length ≤ decodedLenEstimate text.length := by
  fun_induction decode text generalizing bytes with
  | case1 =>
    cases decoded
    exact Nat.zero_le _
  | case2 a b c d => simpa [decodedLenEstimate] using decodeLast_length decoded
  | case3 a b c d rest _ ih =>
    simp only [Option.bind_eq_bind, Option.bind_eq_some_iff, Option.pure_def,
      Option.some.injEq] at decoded
    obtain ⟨group, first, bytes, others, rfl⟩ := decoded
    have short := ih others
    have three := decodeGroup_length first
    simp only [decodedLenEstimate, List.length_cons, List.length_append] at short ⊢
    split at short <;> split <;> omega
  | case4 => cases decoded

theorem character_plain {v : Nat} (bound : v < 64) :
    character v ≠ 34 ∧ character v ≠ 92 ∧ 32 ≤ (character v).toNat := by
  have all : ∀ v : Fin 64, character v ≠ 34 ∧ character v ≠ 92 ∧ 32 ≤ (character v).toNat := by
    decide
  exact all ⟨v, bound⟩

theorem pad_plain : PAD ≠ 34 ∧ PAD ≠ 92 ∧ 32 ≤ PAD.toNat := by decide

theorem plain_encode (bytes : List UInt8) :
    ∀ byte ∈ encode bytes, byte ≠ 34 ∧ byte ≠ 92 ∧ 32 ≤ byte.toNat := by
  fun_induction encode bytes with
  | case1 => exact List.forall_mem_nil _
  | case2 a =>
    have boundA := a.toNat_lt
    simp only [List.forall_mem_cons]
    exact ⟨character_plain (by omega), character_plain (by omega), pad_plain, pad_plain,
      List.forall_mem_nil _⟩
  | case3 a b =>
    have boundA := a.toNat_lt
    have boundB := b.toNat_lt
    simp only [List.forall_mem_cons]
    exact ⟨character_plain (by omega), character_plain (by omega), character_plain (by omega),
      pad_plain, List.forall_mem_nil _⟩
  | case4 a b c rest ih =>
    have boundA := a.toNat_lt
    have boundB := b.toNat_lt
    have boundC := c.toNat_lt
    simp only [List.forall_mem_cons]
    exact ⟨character_plain (by omega), character_plain (by omega), character_plain (by omega),
      character_plain (by omega), ih⟩

end Standard

/-- The engine with the standard alphabet. -/
@[reducible] def standard : Engine where
  encode := Standard.encode
  decode := Standard.decode
  decodedLenEstimate := Standard.decodedLenEstimate
  decode_encode := Standard.decode_encode
  length_encode := Standard.length_encode
  plain_encode := Standard.plain_encode
  length_decode := Standard.length_decode

end Codex.Base64
