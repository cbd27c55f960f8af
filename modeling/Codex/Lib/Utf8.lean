import Mathlib

/-!
# UTF-8 validation

`core::str::from_utf8` on a list of bytes. The scan reads one scalar value at a time; the
first position where this fails is `valid_up_to`, and `error_len` is the length of the
invalid sequence, or `None` when the input ends inside a sequence that is still valid.
-/

namespace Codex.Utf8

/-- A continuation byte, `10xxxxxx`. -/
def isContinuation (byte : UInt8) : Bool := 0x80 ≤ byte && byte ≤ 0xbf

/-- The number of bytes that the first byte of a scalar value announces; 0 for a byte that
    starts none (`utf8_char_width`). -/
def charWidth (first : UInt8) : Nat :=
  if first < 0x80 then 1
  else if first < 0xc2 then 0
  else if first < 0xe0 then 2
  else if first < 0xf0 then 3
  else if first < 0xf5 then 4
  else 0

/-- The second bytes allowed after a first byte: the overlong forms, the surrogates and the
    values above `10FFFF` are cut off here. -/
def secondAllowed (first second : UInt8) : Bool :=
  isContinuation second &&
    (if first == 0xe0 then 0xa0 ≤ second
    else if first == 0xed then second ≤ 0x9f
    else if first == 0xf0 then 0x90 ≤ second
    else if first == 0xf4 then second ≤ 0x8f
    else true)

/-- What stands at the front of a non-empty input. -/
inductive Front where
  | scalar (width : Nat)
  | invalid (errorLen : Nat)
  | incomplete
  deriving DecidableEq, Repr

/-- Read the bytes after the first one: `seen` bytes are accepted, `missing` are to come. -/
def readRest (first : UInt8) : Nat → Nat → List UInt8 → Front
  | seen, 0, _ => .scalar seen
  | _, _ + 1, [] => .incomplete
  | seen, missing + 1, byte :: bytes =>
      if (if seen = 1 then secondAllowed first byte else isContinuation byte) then
        readRest first (seen + 1) missing bytes
      else
        .invalid seen

def readFront : List UInt8 → Front
  | [] => .incomplete
  | first :: bytes =>
      match charWidth first with
      | 0 => .invalid 1
      | width + 1 => readRest first 1 width bytes

/-- `Utf8Error`. -/
structure Utf8Error where
  validUpTo : Nat
  errorLen : Option Nat
  deriving DecidableEq, Repr

/-- The validation loop; every round consumes at least one byte, so the length of the input
    is enough fuel. -/
def validate : Nat → Nat → List UInt8 → Except Utf8Error Unit
  | _, _, [] => .ok ()
  | 0, _, _ :: _ => .ok ()
  | fuel + 1, index, bytes@(_ :: _) =>
      match readFront bytes with
      | .scalar width => validate fuel (index + width) (bytes.drop width)
      | .invalid errorLen => .error ⟨index, some errorLen⟩
      | .incomplete => .error ⟨index, none⟩

/-- `core::str::from_utf8`, without the string. -/
def fromUtf8 (bytes : List UInt8) : Except Utf8Error Unit := validate bytes.length 0 bytes

example : fromUtf8 [0x61, 0xe2, 0x82] = .error ⟨1, none⟩ := rfl

theorem charWidth_le (first : UInt8) : charWidth first ≤ 4 := by
  unfold charWidth
  repeat' split
  all_goals omega

variable {first lead : UInt8} {width seen missing : Nat} {bytes front rest : List UInt8}

/-- A byte that announces more bytes is above ASCII and no continuation. -/
theorem lead_of_charWidth (wide : charWidth first = width + 2) :
    isContinuation first = false ∧ 0x80 ≤ first := by
  have high : 0xc2 ≤ first := by
    by_contra low
    unfold charWidth at wide
    rw [UInt8.not_le] at low
    rw [if_pos low] at wide
    split at wide <;> omega
  refine ⟨?_, UInt8.le_trans (by decide) high⟩
  rw [isContinuation, Bool.and_eq_false_iff]
  right
  rw [decide_eq_false_iff_not, UInt8.not_le]
  exact UInt8.lt_of_lt_of_le (by decide) high

/-- The byte test of the read loop. -/
def allowed (first : UInt8) (seen : Nat) (byte : UInt8) : Bool :=
  if seen = 1 then secondAllowed first byte else isContinuation byte

theorem isContinuation_of_allowed {byte : UInt8}
    (ok : allowed first seen byte = true) : isContinuation byte = true := by
  unfold allowed at ok
  split at ok
  · exact (Bool.and_eq_true _ _ ▸ ok).1
  · exact ok

theorem readRest_cons (first byte : UInt8) (seen missing : Nat) (bytes : List UInt8) :
    readRest first seen (missing + 1) (byte :: bytes) =
      if allowed first seen byte then readRest first (seen + 1) missing bytes
      else .invalid seen := rfl

theorem readRest_scalar (read : readRest first seen missing bytes = .scalar width) :
    width = seen + missing ∧ missing ≤ bytes.length ∧
      ∀ byte ∈ bytes.take missing, isContinuation byte = true := by
  induction missing generalizing seen bytes with
  | zero =>
    cases read
    simp
  | succ missing ih =>
    cases bytes with
    | nil => cases read
    | cons byte bytes =>
      rw [readRest_cons] at read
      split at read
      · next ok =>
        obtain ⟨total, enough, rest⟩ := ih read
        refine ⟨by omega, by simpa using enough, ?_⟩
        intro other member
        rw [List.take_succ_cons, List.mem_cons] at member
        rcases member with rfl | member
        · exact isContinuation_of_allowed ok
        · exact rest other member
      · cases read

theorem readRest_incomplete (read : readRest first seen missing bytes = .incomplete) :
    bytes.length < missing ∧ ∀ byte ∈ bytes, isContinuation byte = true := by
  induction missing generalizing seen bytes with
  | zero => cases read
  | succ missing ih =>
    cases bytes with
    | nil => simp
    | cons byte bytes =>
      rw [readRest_cons] at read
      split at read
      · next ok =>
        obtain ⟨short, rest⟩ := ih read
        refine ⟨by simpa using short, ?_⟩
        intro other member
        rcases List.mem_cons.mp member with rfl | member
        · exact isContinuation_of_allowed ok
        · exact rest other member
      · cases read

/-- A proper prefix of a scalar value is incomplete. -/
theorem readRest_take {count : Nat} (read : readRest first seen missing bytes = .scalar width)
    (short : count < missing) :
    readRest first seen missing (bytes.take count) = .incomplete := by
  induction missing generalizing seen count bytes with
  | zero => omega
  | succ missing ih =>
    cases count with
    | zero => rfl
    | succ count =>
      cases bytes with
      | nil => cases read
      | cons byte bytes =>
        rw [readRest_cons] at read
        rw [List.take_succ_cons, readRest_cons]
        split at read
        · next ok =>
          rw [if_pos ok]
          exact ih read (by omega)
        · cases read

/-- Reading stops in front of a byte that is no continuation. -/
theorem readRest_before (noContinuation : isContinuation lead = false) :
    (∃ count, count ≤ front.length ∧
      (readRest first seen missing (front ++ lead :: rest) = .scalar (seen + count) ∨
        readRest first seen missing (front ++ lead :: rest) = .invalid (seen + count))) := by
  induction missing generalizing seen front with
  | zero => exact ⟨0, Nat.zero_le _, .inl rfl⟩
  | succ missing ih =>
    cases front with
    | nil =>
      refine ⟨0, Nat.le_refl _, .inr ?_⟩
      have refused : ¬ allowed first seen lead = true := by
        intro ok
        rw [isContinuation_of_allowed ok] at noContinuation
        cases noContinuation
      rw [List.nil_append, readRest_cons, if_neg refused]
      rfl
    | cons byte front =>
      rw [List.cons_append, readRest_cons]
      split
      · obtain ⟨count, inside, result⟩ := @ih (seen + 1) front
        refine ⟨count + 1, by simpa using inside, ?_⟩
        rw [Nat.add_right_comm] at result
        exact result
      · exact ⟨0, Nat.zero_le _, .inr rfl⟩

theorem readFront_scalar (read : readFront bytes = .scalar width) :
    0 < width ∧ width ≤ bytes.length ∧
      ∀ byte ∈ (bytes.take width).drop 1, isContinuation byte = true := by
  cases bytes with
  | nil => cases read
  | cons first bytes =>
    simp only [readFront] at read
    split at read
    · cases read
    · next missing wide =>
      obtain ⟨rfl, enough, rest⟩ := readRest_scalar read
      refine ⟨by omega, by rw [List.length_cons]; omega, ?_⟩
      rw [Nat.add_comm, List.take_succ_cons, List.drop_succ_cons, List.drop_zero]
      exact rest

/-- An incomplete input is short, starts a scalar value and has no ASCII byte. -/
theorem readFront_incomplete (read : readFront (first :: bytes) = .incomplete) :
    (first :: bytes).length ≤ 3 ∧ isContinuation first = false ∧
      ∀ byte ∈ first :: bytes, 0x80 ≤ byte := by
  simp only [readFront] at read
  split at read
  · cases read
  next missing wide =>
  obtain ⟨short, rest⟩ := readRest_incomplete read
  have narrow := charWidth_le first
  obtain ⟨more, rfl⟩ : ∃ more, missing = more + 1 := ⟨missing - 1, by omega⟩
  obtain ⟨lead, high⟩ := lead_of_charWidth wide
  refine ⟨by rw [List.length_cons]; omega, lead, ?_⟩
  intro byte member
  rcases List.mem_cons.mp member with rfl | member
  · exact high
  · have continued := rest byte member
    rw [isContinuation, Bool.and_eq_true] at continued
    exact of_decide_eq_true continued.1

theorem readFront_take {count : Nat} (read : readFront bytes = .scalar width) (positive : 0 < count)
    (short : count < width) :
    readFront (bytes.take count) = .incomplete := by
  obtain ⟨count, rfl⟩ : ∃ below, count = below + 1 := ⟨count - 1, by omega⟩
  cases bytes with
  | nil => cases read
  | cons first bytes =>
    rw [List.take_succ_cons]
    simp only [readFront] at read ⊢
    split at read
    · cases read
    · next missing wide =>
      obtain ⟨rfl, -, -⟩ := readRest_scalar read
      exact readRest_take read (by omega)

/-- The scan does not run past a byte that is no continuation. -/
theorem readFront_before (noContinuation : isContinuation lead = false) (nonempty : front ≠ []) :
    ∃ count, 0 < count ∧ count ≤ front.length ∧
      (readFront (front ++ lead :: rest) = .scalar count ∨
        readFront (front ++ lead :: rest) = .invalid count) := by
  obtain ⟨first, front, rfl⟩ := List.exists_cons_of_ne_nil nonempty
  rw [List.cons_append]
  simp only [readFront]
  split
  · exact ⟨1, Nat.one_pos, by simp, .inr rfl⟩
  · next missing _ =>
    obtain ⟨count, inside, result⟩ := @readRest_before first lead 1 missing front rest noContinuation
    exact ⟨1 + count, by omega, by rw [List.length_cons]; omega, result⟩

/-- An input that ends inside a scalar value is reported there, unless an invalid sequence
    comes first. -/
theorem validate_before {fuel index : Nat} (ends : readFront (lead :: rest) = .incomplete)
    (enough : (front ++ lead :: rest).length ≤ fuel) :
    validate fuel index (front ++ lead :: rest) = .error ⟨index + front.length, none⟩ ∨
      ∃ valid errorLen, 0 < errorLen ∧ valid + errorLen ≤ front.length ∧
        validate fuel index (front ++ lead :: rest) = .error ⟨index + valid, some errorLen⟩ := by
  have noContinuation := (readFront_incomplete ends).2.1
  induction fuel generalizing index front with
  | zero => simp at enough
  | succ fuel ih =>
    by_cases empty : front = []
    · left
      subst empty
      rw [List.nil_append, validate, ends]
      rfl
    obtain ⟨count, positive, inside, result⟩ := @readFront_before lead front rest noContinuation
      empty
    obtain ⟨first, tail, isCons⟩ : ∃ first tail, front ++ lead :: rest = first :: tail :=
      List.exists_cons_of_ne_nil (by simp)
    rcases result with scalar | invalid
    · have dropped : (front ++ lead :: rest).drop count = front.drop count ++ lead :: rest :=
        List.drop_append_of_le_length inside
      have step : validate (fuel + 1) index (front ++ lead :: rest) =
          validate fuel (index + count) (front.drop count ++ lead :: rest) := by
        rw [← dropped, isCons, validate, ← isCons, scalar]
      rw [step]
      have shorter : (front.drop count ++ lead :: rest).length ≤ fuel := by
        rw [List.length_append, List.length_drop] at *
        omega
      have total : count + (front.drop count).length = front.length := by
        rw [List.length_drop]
        omega
      rcases @ih (front.drop count) (index + count) shorter with incomplete | ⟨valid, errorLen, some, fits, found⟩
      · left
        rw [incomplete, Nat.add_assoc, total]
      · right
        refine ⟨count + valid, errorLen, some, by omega, ?_⟩
        rw [found, Nat.add_assoc]
    · right
      refine ⟨0, count, positive, by omega, ?_⟩
      rw [isCons, validate, ← isCons, invalid]
      rfl

/-- A report of an incomplete end names the position of an incomplete input. -/
theorem validate_incomplete {fuel index : Nat} {valid : Nat}
    (found : validate fuel index bytes = .error ⟨valid, none⟩) :
    index ≤ valid ∧ readFront (bytes.drop (valid - index)) = .incomplete ∧
      bytes.drop (valid - index) ≠ [] := by
  induction fuel generalizing index bytes with
  | zero => cases bytes <;> cases found
  | succ fuel ih =>
    cases bytes with
    | nil => cases found
    | cons first bytes =>
      rw [validate] at found
      split at found
      · next width scalar =>
        obtain ⟨le, incomplete, nonempty⟩ := ih found
        rw [List.drop_drop] at incomplete nonempty
        have total : width + (valid - (index + width)) = valid - index := by omega
        rw [total] at incomplete nonempty
        exact ⟨by omega, incomplete, nonempty⟩
      · cases found
      · next incomplete =>
        cases found
        rw [Nat.sub_self]
        exact ⟨Nat.le_refl _, incomplete, by simp⟩

end Codex.Utf8
