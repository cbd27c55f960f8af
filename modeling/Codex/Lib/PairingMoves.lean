import Codex.Lib.Pairing

/-!
# Pairs of a rearranged list

Which occurrences `pairing` pairs, said of the positions alone: an opening occurrence that finds
its key closed, and the next occurrence of the key, which closes it. From this, the pairs that stay
when whole pairs are taken out of a list and the others keep their order among the occurrences of
each key.
-/

namespace Codex.Pairing

variable {κ : Type} [DecidableEq κ]

/-- The key is closed before a position: every opening occurrence before it is followed by a
    closing one before it. -/
def Ready (tokens : List (Option (Occurrence κ))) (key : κ) (index : Nat) : Prop :=
  ∀ before, before < index → tokens[before]? = some (some ⟨key, true⟩) →
    ∃ closed, before < closed ∧ closed < index ∧ tokens[closed]? = some (some ⟨key, false⟩)

/-- The keys that are open before a position. -/
def openedAt (opened : κ → Open) : List (Option (Occurrence κ)) → Nat → κ → Open
  | _, 0 => opened
  | [], _ + 1 => opened
  | none :: tokens, index + 1 => openedAt opened tokens index
  | some ⟨key, true⟩ :: tokens, index + 1 =>
      openedAt (Function.update opened key (opened key).push) tokens index
  | some ⟨key, false⟩ :: tokens, index + 1 =>
      openedAt (Function.update opened key .absent) tokens index

theorem Open.push_ne_absent (state : Open) : state.push ≠ .absent := by
  cases state <;> exact nofun

variable {tokens : List (Option (Occurrence κ))} {key : κ} {first second : Nat}

/-- Whether an opening occurrence is paired, from what is open before it and what comes after. -/
theorem settled_opening {opened : κ → Open} {index : Nat}
    (found : tokens[index]? = some (some ⟨key, true⟩)) :
    (settled opened tokens)[index]? =
      some (decide (openedAt opened tokens index key = .absent) &&
        closesNext key (tokens.drop (index + 1))) := by
  induction tokens generalizing opened index with
  | nil => cases found
  | cons token tokens ih =>
    cases index with
    | zero =>
      rw [List.getElem?_cons_zero, Option.some_inj] at found
      subst found
      rfl
    | succ index =>
      rw [List.getElem?_cons_succ] at found
      rcases token with _ | ⟨other, opens⟩
      · exact ih found
      · cases opens <;> exact ih found

/-- A key is closed before a position: it was so at the start or has been closed since, and
    every opening occurrence has been closed. -/
theorem openedAt_absent {opened : κ → Open} {index : Nat} (inside : index ≤ tokens.length) :
    openedAt opened tokens index key = .absent ↔
      (opened key = .absent ∨
        ∃ closed, closed < index ∧ tokens[closed]? = some (some ⟨key, false⟩)) ∧
      Ready tokens key index := by
  induction tokens generalizing opened index with
  | nil =>
    obtain rfl : index = 0 := by simpa using inside
    simp [openedAt, Ready]
  | cons token tokens ih =>
    cases index with
    | zero => simp [openedAt, Ready]
    | succ index =>
      have shorter : index ≤ tokens.length := by simpa using inside
      have ready : Ready (token :: tokens) key (index + 1) ↔ Ready tokens key index ∧
          (token = some ⟨key, true⟩ →
            ∃ closed, closed < index ∧ tokens[closed]? = some (some ⟨key, false⟩)) := by
        constructor
        · intro ready
          refine ⟨fun before less opening => ?_, fun opening => ?_⟩
          · obtain ⟨closed, after, below, closing⟩ := ready (before + 1) (by omega) opening
            obtain ⟨closed, rfl⟩ : ∃ less, closed = less + 1 := ⟨closed - 1, by omega⟩
            exact ⟨closed, by omega, by omega, closing⟩
          · obtain ⟨closed, after, below, closing⟩ := ready 0 (by omega) (by rw [opening]; rfl)
            obtain ⟨closed, rfl⟩ : ∃ less, closed = less + 1 := ⟨closed - 1, by omega⟩
            exact ⟨closed, by omega, closing⟩
        rintro ⟨ready, first⟩ before less opening
        cases before with
        | zero =>
          obtain ⟨closed, below, closing⟩ := first (by simpa using opening)
          exact ⟨closed + 1, by omega, by omega, closing⟩
        | succ before =>
          obtain ⟨closed, after, below, closing⟩ := ready before (by omega) opening
          exact ⟨closed + 1, by omega, by omega, closing⟩
      have closings : (∃ closed, closed < index + 1 ∧
            (token :: tokens)[closed]? = some (some ⟨key, false⟩)) ↔
          token = some ⟨key, false⟩ ∨
            ∃ closed, closed < index ∧ tokens[closed]? = some (some ⟨key, false⟩) := by
        constructor
        · rintro ⟨closed, below, closing⟩
          cases closed with
          | zero => exact .inl (by simpa using closing)
          | succ closed => exact .inr ⟨closed, by omega, closing⟩
        · rintro (here | ⟨closed, below, closing⟩)
          · exact ⟨0, by omega, by rw [here]; rfl⟩
          · exact ⟨closed + 1, by omega, closing⟩
      rw [ready, closings]
      rcases token with _ | ⟨other, opens⟩
      · rw [openedAt, ih shorter]
        simp
      cases opens with
      | true =>
        rw [openedAt, ih shorter]
        by_cases same : key = other
        · subst same
          simp only [Function.update_self, Open.push_ne_absent, false_or]
          grind
        · rw [Function.update_of_ne same]
          grind
      | false =>
        rw [openedAt, ih shorter]
        by_cases same : key = other
        · subst same
          simp only [Function.update_self, true_or, true_and]
          grind
        · rw [Function.update_of_ne same]
          grind

/-- The next occurrence of a key closes it. -/
theorem closesNext_iff :
    closesNext key tokens = true ↔
      ∃ closed : Nat, tokens[closed]? = some (some ⟨key, false⟩) ∧
        ∀ (between : Nat) (opens : Bool), between < closed →
          tokens[between]? ≠ some (some ⟨key, opens⟩) := by
  induction tokens with
  | nil => simp [closesNext]
  | cons token tokens ih =>
    have shift : (∃ closed : Nat, tokens[closed]? = some (some ⟨key, false⟩) ∧
          ∀ (between : Nat) (opens : Bool), between < closed →
          tokens[between]? ≠ some (some ⟨key, opens⟩)) →
        (∀ opens, token ≠ some ⟨key, opens⟩) →
        ∃ closed : Nat, (token :: tokens)[closed]? = some (some ⟨key, false⟩) ∧
          ∀ (between : Nat) (opens : Bool), between < closed →
            (token :: tokens)[between]? ≠ some (some ⟨key, opens⟩) := by
      rintro ⟨closed, closing, apart⟩ other
      refine ⟨closed + 1, closing, fun between opens below => ?_⟩
      cases between with
      | zero => simpa using other opens
      | succ between => exact apart between opens (by omega)
    have back : (∀ opens, token ≠ some ⟨key, opens⟩) →
        (∃ closed : Nat, (token :: tokens)[closed]? = some (some ⟨key, false⟩) ∧
          ∀ (between : Nat) (opens : Bool), between < closed →
            (token :: tokens)[between]? ≠ some (some ⟨key, opens⟩)) →
        ∃ closed : Nat, tokens[closed]? = some (some ⟨key, false⟩) ∧
          ∀ (between : Nat) (opens : Bool), between < closed →
          tokens[between]? ≠ some (some ⟨key, opens⟩) := by
      rintro other ⟨closed, closing, apart⟩
      cases closed with
      | zero => exact absurd (by simpa using closing) (other false)
      | succ closed => exact ⟨closed, closing, fun between opens below =>
          apart (between + 1) opens (by omega)⟩
    rcases token with _ | ⟨other, opens⟩
    · rw [closesNext, ih]
      exact ⟨fun next => shift next (fun _ => by simp), back (fun _ => by simp)⟩
    rw [closesNext]
    by_cases same : other = key
    · subst same
      rw [if_pos rfl]
      cases opens with
      | false =>
        exact ⟨fun _ => ⟨0, rfl, fun between opens below => by omega⟩, fun _ => rfl⟩
      | true =>
        constructor
        · exact fun impossible => absurd impossible (by simp)
        rintro ⟨closed, closing, apart⟩
        cases closed with
        | zero => cases closing
        | succ closed => exact absurd rfl (apart 0 true (Nat.succ_pos _))
    · rw [if_neg same, ih]
      have differs : ∀ opening, some (Occurrence.mk other opens) ≠ some ⟨key, opening⟩ := by
        intro opening equal
        cases equal
        exact same rfl
      exact ⟨fun next => shift next differs, back differs⟩

omit [DecidableEq κ] in
/-- A position with the next occurrences of a key after it. -/
theorem Joined.unique {other : Nat} (joined : Joined tokens first second)
    (again : Joined tokens first other) : second = other := by
  obtain ⟨before, key, opening, closing, apart⟩ := joined
  obtain ⟨beforeOther, otherKey, openingOther, closingOther, apartOther⟩ := again
  rw [opening] at openingOther
  cases openingOther
  rcases Nat.lt_trichotomy second other with less | same | more
  · exact absurd closing (apartOther second false before less)
  · exact same
  · exact absurd closingOther (apart other false beforeOther more)

/-- An opening occurrence and the occurrence it is paired with. -/
def Paired (tokens : List (Option (Occurrence κ))) (first second : Nat) : Prop :=
  (pairing tokens)[first]? = some (some second) ∧ first < second

theorem Paired.joined (paired : Paired tokens first second) : Joined tokens first second := by
  obtain ⟨-, joined | ⟨before, -⟩⟩ := pairing_joined paired.1
  · exact joined
  · exact absurd before (Nat.not_lt.mpr (Nat.le_of_lt paired.2))

/-- An opening occurrence is paired when its key is closed before it and the next occurrence of
    the key closes it. -/
theorem paired_iff :
    Paired tokens first second ↔
      ∃ key, first < second ∧ tokens[first]? = some (some ⟨key, true⟩) ∧
        tokens[second]? = some (some ⟨key, false⟩) ∧ Apart tokens key first second ∧
        Ready tokens key first := by
  have flag : ∀ key, tokens[first]? = some (some ⟨key, true⟩) →
      ((pairing tokens)[first]?).map Option.isSome =
        some (decide (openedAt (fun _ => .absent) tokens first key = .absent) &&
          closesNext key (tokens.drop (first + 1))) := by
    intro key opening
    rw [← List.getElem?_map, pairing_isSome, settled_opening opening]
  have ready : ∀ key, tokens[first]? = some (some ⟨key, true⟩) →
      (openedAt (fun _ => .absent) tokens first key = .absent ↔ Ready tokens key first) := by
    intro key opening
    rw [openedAt_absent (Nat.le_of_lt (List.getElem?_eq_some_iff.mp opening).1)]
    simp
  constructor
  · intro paired
    obtain ⟨before, key, opening, closing, apart⟩ := paired.joined
    refine ⟨key, before, opening, closing, apart, ?_⟩
    have settled := flag key opening
    rw [paired.1] at settled
    simp only [Option.map_some, Option.isSome_some, Option.some.injEq] at settled
    have both := Bool.and_eq_true_iff.mp settled.symm
    exact (ready key opening).mp (of_decide_eq_true both.1)
  rintro ⟨key, before, opening, closing, apart, isReady⟩
  have next : closesNext key (tokens.drop (first + 1)) = true := by
    rw [closesNext_iff]
    refine ⟨second - (first + 1), ?_, fun between opens below => ?_⟩
    · rw [List.getElem?_drop, show first + 1 + (second - (first + 1)) = second by omega, closing]
    · rw [List.getElem?_drop]
      exact apart _ opens (by omega) (by omega)
  have settled := flag key opening
  rw [next, decide_eq_true ((ready key opening).mpr isReady)] at settled
  obtain ⟨pair, found, isSome⟩ := Option.map_eq_some_iff.mp settled
  obtain ⟨other, rfl⟩ := Option.isSome_iff_exists.mp isSome
  obtain ⟨-, joined | ⟨-, otherKey, -, closes, -⟩⟩ := pairing_joined found
  · have same := joined.unique ⟨before, key, opening, closing, apart⟩
    subst same
    exact ⟨found, before⟩
  · rw [opening] at closes
    cases closes

/-- A list whose occurrences are those of another that stay: each has its place, those of one key
    keep their order, and what does not stay goes in whole pairs. -/
structure Rearranged (tokens result : List (Option (Occurrence κ))) (stays : Nat → Prop)
    (place : Nat → Nat) : Prop where
  token : ∀ index, stays index → result[place index]? = tokens[index]?
  order : ∀ first second key opens closes, stays first → stays second →
    tokens[first]? = some (some ⟨key, opens⟩) → tokens[second]? = some (some ⟨key, closes⟩) →
    first < second → place first < place second
  onto : ∀ position token, result[position]? = some (some token) →
    ∃ index, stays index ∧ place index = position
  whole : ∀ index token, tokens[index]? = some (some token) → stays index ∨
    ∃ first second, Paired tokens first second ∧ ¬ stays first ∧ ¬ stays second ∧
      (index = first ∨ index = second)

/-- Pairs that stay are still pairs. -/
theorem Rearranged.paired {result : List (Option (Occurrence κ))} {stays : Nat → Prop}
    {place : Nat → Nat} (rearranged : Rearranged tokens result stays place)
    (paired : Paired tokens first second) (staysFirst : stays first) (staysSecond : stays second) :
    Paired result (place first) (place second) := by
  obtain ⟨key, before, opening, closing, apart, ready⟩ := paired_iff.mp paired
  rw [paired_iff]
  refine ⟨key, rearranged.order _ _ _ _ _ staysFirst staysSecond opening closing before,
    by rw [rearranged.token first staysFirst, opening],
    by rw [rearranged.token second staysSecond, closing], ?_, ?_⟩
  · intro between opens after below found
    obtain ⟨index, staysIndex, rfl⟩ := rearranged.onto between _ found
    rw [rearranged.token index staysIndex] at found
    have afterFirst : first < index := by
      by_contra early
      rcases Nat.lt_or_eq_of_le (Nat.not_lt.mp early) with less | rfl
      · have reversed := rearranged.order _ _ _ _ _ staysIndex staysFirst found opening less
        omega
      · omega
    have belowSecond : index < second := by
      by_contra late
      rcases Nat.lt_or_eq_of_le (Nat.not_lt.mp late) with less | rfl
      · have reversed := rearranged.order _ _ _ _ _ staysSecond staysIndex closing found less
        omega
      · omega
    exact apart index opens afterFirst belowSecond found
  · intro earlier below found
    obtain ⟨index, staysIndex, rfl⟩ := rearranged.onto earlier _ found
    rw [rearranged.token index staysIndex] at found
    have belowFirst : index < first := by
      by_contra late
      rcases Nat.lt_or_eq_of_le (Nat.not_lt.mp late) with less | rfl
      · have reversed := rearranged.order _ _ _ _ _ staysFirst staysIndex opening found less
        omega
      · omega
    -- The first closing occurrence after the opening one stays: were it taken out, the opening
    -- occurrence it is paired with would come in between, and there the key was closed before.
    have exists_ : ∃ closed, index < closed ∧ closed < first ∧
        tokens[closed]? = some (some ⟨key, false⟩) := ready index belowFirst found
    obtain ⟨after, beforeFirst, closes⟩ := Nat.find_spec exists_
    have least := fun closed (less : closed < Nat.find exists_) => Nat.find_min exists_ less
    generalize Nat.find exists_ = closed at after beforeFirst closes least
    have staysClosed : stays closed := by
      rcases rearranged.whole closed _ closes with stay | ⟨source, target, gone, leaves, -, here⟩
      · exact stay
      obtain ⟨goneKey, sourceBefore, opensGone, closesGone, apartGone, readyGone⟩ :=
        paired_iff.mp gone
      rcases here with rfl | rfl
      · rw [closes] at opensGone
        cases opensGone
      rw [closes] at closesGone
      cases closesGone
      have notSource : index ≠ source := by
        rintro rfl
        exact leaves staysIndex
      have beforeSource : index < source := by
        by_contra late
        exact apartGone index true (by omega) after found
      obtain ⟨middle, afterIndex, belowSource, closesMiddle⟩ :=
        readyGone index beforeSource found
      exact absurd ⟨afterIndex, by omega, closesMiddle⟩ (least middle (by omega))
    refine ⟨place closed, ?_, ?_, by rw [rearranged.token closed staysClosed, closes]⟩
    · exact rearranged.order _ _ _ _ _ staysIndex staysClosed found closes after
    · exact rearranged.order _ _ _ _ _ staysClosed staysFirst closes opening beforeFirst

end Codex.Pairing
