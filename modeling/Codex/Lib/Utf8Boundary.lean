import Codex.Lib.Utf8

/-!
# Boundaries between UTF-8 characters

Which positions of a byte string may be cut without dividing a character. A valid text is tiled
by scalar values, a byte that continues one starts none, and an input that ends inside a scalar
value can be completed.
-/

namespace Codex.Utf8

variable {first : UInt8} {seen missing count : Nat} {bytes : List UInt8}

theorem readRest_append {more : List UInt8}
    (complete : readRest first seen missing bytes ≠ .incomplete) :
    readRest first seen missing (bytes ++ more) = readRest first seen missing bytes := by
  induction missing generalizing seen bytes with
  | zero => rfl
  | succ missing ih =>
    cases bytes with
    | nil => exact absurd rfl complete
    | cons byte bytes =>
      rw [readRest_cons] at complete
      rw [List.cons_append, readRest_cons, readRest_cons]
      split
      · next ok =>
        rw [if_pos ok] at complete
        exact ih complete
      · rfl

/-- What is recognised at the front does not depend on later bytes. -/
theorem readFront_append {more : List UInt8} (complete : readFront bytes ≠ .incomplete) :
    readFront (bytes ++ more) = readFront bytes := by
  cases bytes with
  | nil => exact absurd rfl complete
  | cons first bytes =>
    rw [List.cons_append]
    simp only [readFront] at complete ⊢
    cases wide : charWidth first with
    | zero => rfl
    | succ width =>
      rw [wide] at complete
      exact readRest_append complete

theorem readRest_take_of_le (enough : missing ≤ count) :
    readRest first seen missing (bytes.take count) = readRest first seen missing bytes := by
  induction missing generalizing seen count bytes with
  | zero => rfl
  | succ missing ih =>
    obtain ⟨below, rfl⟩ : ∃ below, count = below + 1 := ⟨count - 1, by omega⟩
    cases bytes with
    | nil => rfl
    | cons byte bytes =>
      rw [List.take_succ_cons, readRest_cons, readRest_cons, ih (by omega)]

/-- Four bytes decide what stands at the front. -/
theorem readFront_take_of_le (enough : 4 ≤ count) (bytes : List UInt8) :
    readFront (bytes.take count) = readFront bytes := by
  obtain ⟨below, rfl⟩ : ∃ below, count = below + 1 := ⟨count - 1, by omega⟩
  cases bytes with
  | nil => rfl
  | cons first bytes =>
    rw [List.take_succ_cons]
    simp only [readFront]
    have narrow := charWidth_le first
    cases wide : charWidth first with
    | zero => rfl
    | succ width =>
      apply readRest_take_of_le
      omega

theorem readFront_take_scalar {width : Nat} (read : readFront bytes = .scalar width)
    (enough : width ≤ count) :
    readFront (bytes.take count) = .scalar width := by
  obtain ⟨positive, -, -⟩ := readFront_scalar read
  obtain ⟨below, rfl⟩ : ∃ below, count = below + 1 := ⟨count - 1, by omega⟩
  cases bytes with
  | nil => cases read
  | cons first bytes =>
    rw [List.take_succ_cons]
    simp only [readFront] at read ⊢
    split at read
    · cases read
    · next missing wide =>
      obtain ⟨rfl, -, -⟩ := readRest_scalar read
      rw [readRest_take_of_le (by omega), read]

/-- The first byte of a scalar value continues none. -/
theorem lead_of_readFront {width : Nat}
    (read : readFront (first :: bytes) = .scalar width) : isContinuation first = false := by
  simp only [readFront] at read
  split at read
  · cases read
  next missing wide =>
  cases missing with
  | zero =>
    rw [isContinuation, Bool.and_eq_false_iff]
    left
    rw [decide_eq_false_iff_not, UInt8.not_le]
    unfold charWidth at wide
    split at wide
    · assumption
    · repeat' split at wide
      all_goals omega
  | succ missing => exact (lead_of_charWidth wide).1

/-- The input ends inside a scalar value that further bytes can finish. -/
def Completable (bytes : List UInt8) : Prop :=
  bytes ≠ [] ∧ ∃ more, more ≠ [] ∧ readFront (bytes ++ more) = .scalar (bytes ++ more).length

/-- A second byte that every first byte allows. -/
def completion (first : UInt8) : UInt8 :=
  if first = 0xe0 then 0xa0 else if first = 0xf0 then 0x90 else 0x80

theorem secondAllowed_completion (first : UInt8) :
    secondAllowed first (completion first) = true := by
  unfold secondAllowed completion
  by_cases e0 : first = 0xe0
  · subst e0
    decide
  by_cases f0 : first = 0xf0
  · subst f0
    decide
  rw [if_neg e0, if_neg f0]
  by_cases ed : first = 0xed
  · subst ed
    decide
  by_cases f4 : first = 0xf4
  · subst f4
    decide
  simp only [beq_iff_eq, e0, ed, f0, f4, if_false]
  decide

/-- The byte that may stand after `seen` bytes of a scalar value. -/
theorem exists_allowed (first : UInt8) (seen : Nat) : ∃ byte, allowed first seen byte = true := by
  by_cases second : seen = 1
  · refine ⟨completion first, ?_⟩
    rw [allowed, if_pos second]
    exact secondAllowed_completion first
  · refine ⟨0x80, ?_⟩
    rw [allowed, if_neg second]
    decide

theorem exists_readRest (first : UInt8) (seen missing : Nat) :
    ∃ more : List UInt8, more.length = missing ∧
      readRest first seen missing more = .scalar (seen + missing) := by
  induction missing generalizing seen with
  | zero => exact ⟨[], rfl, rfl⟩
  | succ missing ih =>
    obtain ⟨byte, ok⟩ := exists_allowed first seen
    obtain ⟨more, length, read⟩ := ih (seen + 1)
    refine ⟨byte :: more, by rw [List.length_cons, length], ?_⟩
    rw [readRest_cons, if_pos ok, read, Nat.add_right_comm, Nat.add_assoc]

theorem readRest_completable (read : readRest first seen missing bytes = .incomplete) :
    ∃ more : List UInt8, more ≠ [] ∧ bytes.length + more.length = missing ∧
      readRest first seen missing (bytes ++ more) = .scalar (seen + missing) := by
  induction missing generalizing seen bytes with
  | zero => cases read
  | succ missing ih =>
    cases bytes with
    | nil =>
      obtain ⟨more, length, complete⟩ := exists_readRest first seen (missing + 1)
      refine ⟨more, ?_, by rw [List.length_nil, length, Nat.zero_add], complete⟩
      intro none
      rw [none] at length
      cases length
    | cons byte bytes =>
      rw [readRest_cons] at read
      split at read
      · next ok =>
        obtain ⟨more, nonempty, length, complete⟩ := ih read
        refine ⟨more, nonempty, by rw [List.length_cons]; omega, ?_⟩
        rw [List.cons_append, readRest_cons, if_pos ok, complete, Nat.add_right_comm,
          Nat.add_assoc]
      · cases read

theorem completable_iff (bytes : List UInt8) :
    Completable bytes ↔ bytes ≠ [] ∧ readFront bytes = .incomplete := by
  constructor
  · rintro ⟨nonempty, more, rest, complete⟩
    refine ⟨nonempty, ?_⟩
    have positive := List.length_pos_iff.mpr nonempty
    have later := List.length_pos_iff.mpr rest
    have shorter : bytes.length < (bytes ++ more).length := by
      rw [List.length_append]
      omega
    have front := readFront_take complete positive shorter
    rw [List.take_left] at front
    exact front
  rintro ⟨nonempty, incomplete⟩
  refine ⟨nonempty, ?_⟩
  obtain ⟨first, bytes, rfl⟩ := List.exists_cons_of_ne_nil nonempty
  simp only [readFront] at incomplete
  split at incomplete
  · cases incomplete
  next missing wide =>
  obtain ⟨more, rest, length, complete⟩ := readRest_completable incomplete
  refine ⟨more, rest, ?_⟩
  rw [List.cons_append]
  simp only [readFront, wide, complete]
  rw [List.length_cons, List.length_append, length, Nat.add_comm]

/-- The bytes are scalar values one after the other. -/
inductive Tiled : List UInt8 → Prop
  | nil : Tiled []
  | scalar {bytes : List UInt8} {width : Nat} (read : readFront bytes = .scalar width)
      (rest : Tiled (bytes.drop width)) : Tiled bytes

theorem validate_ok {fuel index : Nat} (enough : bytes.length ≤ fuel)
    (valid : validate fuel index bytes = .ok ()) : Tiled bytes := by
  induction fuel generalizing index bytes with
  | zero =>
    rw [List.eq_nil_of_length_eq_zero (Nat.le_zero.mp enough)]
    exact .nil
  | succ fuel ih =>
    cases bytes with
    | nil => exact .nil
    | cons first bytes =>
      rw [validate] at valid
      split at valid
      · next width read =>
        obtain ⟨positive, -, -⟩ := readFront_scalar read
        refine .scalar read (ih ?_ valid)
        rw [List.length_drop]
        omega
      · cases valid
      · cases valid

theorem validate_of_tiled (tiled : Tiled bytes) (fuel index : Nat) :
    validate fuel index bytes = .ok () := by
  induction tiled generalizing fuel index with
  | nil => cases fuel <;> rfl
  | @scalar bytes width read rest ih =>
    cases bytes with
    | nil => cases read
    | cons first bytes =>
      cases fuel with
      | zero => rfl
      | succ fuel =>
        rw [validate, read]
        exact ih fuel (index + width)

theorem fromUtf8_ok_iff (bytes : List UInt8) : fromUtf8 bytes = .ok () ↔ Tiled bytes :=
  ⟨validate_ok (Nat.le_refl _), fun tiled => validate_of_tiled tiled _ _⟩

/-- Before the reported position the input is tiled; what stands there is no scalar value. -/
theorem validate_error {fuel index : Nat} {error : Utf8Error} (enough : bytes.length ≤ fuel)
    (found : validate fuel index bytes = .error error) :
    ∃ valid, error.validUpTo = index + valid ∧ valid < bytes.length ∧
      Tiled (bytes.take valid) ∧
      ((∃ errorLen, error.errorLen = some errorLen ∧
          readFront (bytes.drop valid) = .invalid errorLen) ∨
        error.errorLen = none ∧ readFront (bytes.drop valid) = .incomplete) := by
  induction fuel generalizing index bytes with
  | zero => cases bytes <;> cases found
  | succ fuel ih =>
    cases bytes with
    | nil => cases found
    | cons first bytes =>
      rw [validate] at found
      split at found
      · next width read =>
        obtain ⟨positive, inside, -⟩ := readFront_scalar read
        have fits : ((first :: bytes).drop width).length ≤ fuel := by
          rw [List.length_drop]
          omega
        obtain ⟨valid, position, before, tiled, front⟩ := ih fits found
        rw [List.length_drop] at before
        refine ⟨width + valid, by rw [position, Nat.add_assoc], by omega, ?_, ?_⟩
        · apply Tiled.scalar (readFront_take_scalar read (Nat.le_add_right width valid))
          rw [List.drop_take, Nat.add_sub_cancel_left]
          exact tiled
        · rw [List.drop_drop] at front
          exact front
      · next errorLen read =>
        cases found
        exact ⟨0, rfl, by simp, .nil, .inl ⟨errorLen, rfl, read⟩⟩
      · next read =>
        cases found
        exact ⟨0, rfl, by simp, .nil, .inr ⟨rfl, read⟩⟩

/-- In a tiled text every byte that continues no scalar value starts one. -/
theorem Tiled.scalar_of_lead (tiled : Tiled bytes) {position : Nat} {lead : UInt8}
    (stands : bytes[position]? = some lead) (noContinuation : isContinuation lead = false) :
    ∃ width, readFront (bytes.drop position) = .scalar width := by
  induction tiled generalizing position with
  | nil => cases stands
  | @scalar bytes width read rest ih =>
    by_cases here : position = 0
    · subst here
      exact ⟨width, read⟩
    by_cases inside : position < width
    · obtain ⟨-, -, continued⟩ := readFront_scalar read
      have member : lead ∈ (bytes.take width).drop 1 := by
        have index : 1 + (position - 1) = position := by omega
        have found : ((bytes.take width).drop 1)[position - 1]? = some lead := by
          rw [List.getElem?_drop, index, List.getElem?_take, if_pos inside, stands]
        exact List.mem_of_getElem? found
      rw [continued lead member] at noContinuation
      cases noContinuation
    have later : (bytes.drop width)[position - width]? = some lead := by
      rw [List.getElem?_drop, ← stands]
      congr 1
      omega
    obtain ⟨other, front⟩ := ih later
    rw [List.drop_drop] at front
    refine ⟨other, ?_⟩
    rw [← front]
    congr 2
    omega

/-- Cutting at the position divides no scalar value that stands anywhere in the input. -/
def CleanCut (input : List UInt8) (position : Nat) : Prop :=
  ∀ start width, readFront (input.drop start) = .scalar width →
    start + width ≤ position ∨ position ≤ start

theorem CleanCut.zero (input : List UInt8) : CleanCut input 0 :=
  fun _ _ _ => .inr (Nat.zero_le _)

/-- A cut may move over a tiled text. -/
theorem CleanCut.tiled {done piece rest : List UInt8}
    (clean : CleanCut (done ++ (piece ++ rest)) done.length) (tiled : Tiled piece) :
    CleanCut (done ++ (piece ++ rest)) (done ++ piece).length := by
  intro start width read
  rw [List.length_append]
  rcases clean start width read with earlier | later
  · exact .inl (by omega)
  by_cases beyond : done.length + piece.length ≤ start
  · exact .inr beyond
  left
  obtain ⟨offset, rfl⟩ : ∃ offset, start = done.length + offset := ⟨start - done.length, by omega⟩
  have inside : offset < piece.length := by omega
  rw [List.drop_length_add_append, List.drop_append_of_le_length inside.le,
    List.drop_eq_getElem_cons inside, List.cons_append] at read
  obtain ⟨other, front⟩ :=
    tiled.scalar_of_lead (List.getElem?_eq_getElem inside) (lead_of_readFront read)
  have complete : readFront (piece.drop offset) ≠ .incomplete := by
    rw [front]
    intro impossible
    cases impossible
  rw [← List.cons_append, ← List.drop_eq_getElem_cons inside, readFront_append complete, front]
    at read
  cases read
  have fits := (readFront_scalar front).2.1
  rw [List.length_drop] at fits
  omega

/-- A cut may move over a byte where no scalar value stands. -/
theorem CleanCut.single {done rest : List UInt8} (clean : CleanCut (done ++ rest) done.length)
    (none : ∀ width, readFront rest ≠ .scalar width) :
    CleanCut (done ++ rest) (done.length + 1) := by
  intro start width read
  rcases clean start width read with earlier | later
  · exact .inl (by omega)
  by_cases here : start = done.length
  · rw [here, List.drop_append_length] at read
    exact absurd read (none width)
  · exact .inr (by omega)

/-- An incomplete input is not divided by a cut that stays clean however it goes on. -/
theorem CleanCut.le_of_completable {front suffix : List UInt8} {position : Nat}
    (clean : ∀ more, CleanCut (front ++ suffix ++ more) position)
    (completable : Completable suffix) (inside : position ≤ (front ++ suffix).length) :
    position ≤ front.length := by
  obtain ⟨-, more, rest, complete⟩ := completable
  have positive := List.length_pos_iff.mpr rest
  have stands : readFront ((front ++ suffix ++ more).drop front.length) =
      .scalar (suffix ++ more).length := by
    rw [List.append_assoc, List.drop_append_length]
    exact complete
  rcases clean more _ _ stands with past | before
  · rw [List.length_append] at past inside
    omega
  · exact before

/-- Incomplete inputs with the same end are the same. -/
theorem Completable.eq_of_append {front suffix : List UInt8} (whole : Completable (front ++ suffix))
    (ends : Completable suffix) : front = [] := by
  obtain ⟨nonempty, more, -, read⟩ := ends
  obtain ⟨lead, rest, rfl⟩ := List.exists_cons_of_ne_nil nonempty
  cases front with
  | nil => rfl
  | cons first front =>
    exfalso
    have lone := lead_of_readFront read
    obtain ⟨-, further, -, complete⟩ := whole
    obtain ⟨-, -, continued⟩ := readFront_scalar complete
    have member : lead ∈ ((first :: front ++ lead :: rest ++ further).take
        (first :: front ++ lead :: rest ++ further).length).drop 1 := by
      rw [List.take_length]
      simp
    rw [continued lead member] at lone
    cases lone

end Codex.Utf8
