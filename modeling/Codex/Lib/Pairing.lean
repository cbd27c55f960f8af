import Codex.Lib.Machine

/-!
# Pairing of occurrences

A list in which some items open a key and some close one. A closing occurrence is paired with
the opening occurrence of its key when that is the only one since the last closing occurrence;
several open occurrences of one key are ambiguous and stay unpaired.

`pairing` computes the pairs in one pass with a table of the open keys. `settled` says which
occurrences are paired, without the table, and is what the repairs of a list are reasoned about
with: `complete` answers every unpaired opening occurrence, and `prune` drops the unpaired
closing ones.
-/

namespace Codex.Pairing

/-- What an item contributes: its key, and whether it opens or closes it. -/
structure Occurrence (κ : Type) where
  key : κ
  opens : Bool
  deriving DecidableEq, Repr

section Pairs

variable {κ : Type} [DecidableEq κ]

/-- The open keys, `none` for an ambiguous one, and the pairs found so far. -/
structure Pass (κ : Type) where
  pending : AList (fun _ : κ => Option Nat)
  pairs : List (Option Nat)

/-- Record the pair that the occurrence at `index` closes. -/
def close (pairs : List (Option Nat)) (index : Nat) : Option (Option Nat) → List (Option Nat)
  | some (some source) => (pairs.set source (some index)).set index (some source)
  | some none => pairs
  | none => pairs

def Pass.step (pass : Pass κ) (index : Nat) : Option (Occurrence κ) → Pass κ
  | none => pass
  | some ⟨key, true⟩ =>
      let entry := if (pass.pending.lookup key).isSome then none else some index
      { pass with pending := pass.pending.insert key entry }
  | some ⟨key, false⟩ =>
      { pending := pass.pending.erase key
        pairs := close pass.pairs index (pass.pending.lookup key) }

def Pass.run (pass : Pass κ) (index : Nat) : List (Option (Occurrence κ)) → Pass κ
  | [] => pass
  | token :: tokens => (pass.step index token).run (index + 1) tokens

/-- The index that each occurrence is paired with. -/
def pairing (tokens : List (Option (Occurrence κ))) : List (Option Nat) :=
  (Pass.run ⟨∅, List.replicate tokens.length none⟩ 0 tokens).pairs

/-! ## What a pair is -/

/-- The key does not occur strictly between two positions. -/
def Apart (tokens : List (Option (Occurrence κ))) (key : κ) (first second : Nat) : Prop :=
  ∀ between opens, first < between → between < second →
    tokens[between]? ≠ some (some ⟨key, opens⟩)

/-- An opening occurrence of a key and the next occurrence of the key, which closes it. -/
def Joined (tokens : List (Option (Occurrence κ))) (first second : Nat) : Prop :=
  first < second ∧ ∃ key, tokens[first]? = some (some ⟨key, true⟩) ∧
    tokens[second]? = some (some ⟨key, false⟩) ∧ Apart tokens key first second

/-- The state of a pass before the token at `index`. -/
structure Pass.Sound (tokens : List (Option (Occurrence κ))) (index : Nat) (pass : Pass κ) :
    Prop where
  length : pass.pairs.length = tokens.length
  open_entry : ∀ key source, pass.pending.lookup key = some (some source) →
    source < index ∧ tokens[source]? = some (some ⟨key, true⟩) ∧
      pass.pairs[source]? = some none ∧ Apart tokens key source index
  paired : ∀ first second, pass.pairs[first]? = some (some second) →
    first < index ∧ second < index ∧ pass.pairs[second]? = some (some first) ∧
      (Joined tokens first second ∨ Joined tokens second first)

theorem Pass.sound_initial (tokens : List (Option (Occurrence κ))) :
    Pass.Sound tokens 0 ⟨∅, List.replicate tokens.length none⟩ where
  length := List.length_replicate
  open_entry := by
    intro key source found
    simp at found
  paired := by
    intro first second found
    simp [List.getElem?_replicate] at found

namespace Pass.Sound

variable {tokens : List (Option (Occurrence κ))} {index : Nat} {pass : Pass κ}

theorem unwritten (sound : pass.Sound tokens index) {later : Nat} (le : index ≤ later)
    (lt : later < tokens.length) : pass.pairs[later]? = some none := by
  have bound : later < pass.pairs.length := sound.length ▸ lt
  cases entry : pass.pairs[later]? with
  | none =>
    rw [List.getElem?_eq_none_iff] at entry
    omega
  | some value =>
    cases value with
    | none => rfl
    | some other =>
      have before := (sound.paired later other entry).1
      omega

variable {key : κ} {token : Option (Occurrence κ)}

omit [DecidableEq κ] in
/-- A key stays apart past a token of another key. -/
theorem apart_succ {source : Nat} (apart : Apart tokens key source index)
    (here : tokens[index]? = some token)
    (differs : ∀ opens, token ≠ some ⟨key, opens⟩) : Apart tokens key source (index + 1) := by
  intro between opens above below found
  by_cases last : between = index
  · subst last
    rw [here] at found
    exact differs opens (Option.some.inj found)
  · exact apart between opens above (by omega) found

/-- Past a token whose key is not open. -/
theorem skip (sound : pass.Sound tokens index) (here : tokens[index]? = some token)
    (differs : ∀ key source, pass.pending.lookup key = some (some source) →
      ∀ opens, token ≠ some ⟨key, opens⟩) : pass.Sound tokens (index + 1) where
  length := sound.length
  open_entry := by
    intro key source found
    obtain ⟨lt, opened, free, apart⟩ := sound.open_entry key source found
    exact ⟨by omega, opened, free, apart_succ apart here (differs key source found)⟩
  paired := by
    intro first second found
    obtain ⟨ltFirst, ltSecond, facts⟩ := sound.paired first second found
    exact ⟨by omega, by omega, facts⟩

/-- Forgetting open keys is sound. -/
theorem forget (sound : pass.Sound tokens index) (key : κ) :
    Pass.Sound tokens index ⟨pass.pending.erase key, pass.pairs⟩ where
  length := sound.length
  open_entry := by
    intro other source found
    rw [Machine.lookup_erase_eq] at found
    split at found
    · cases found
    · exact sound.open_entry other source found
  paired := sound.paired

/-- Past a closing occurrence of a key that is then forgotten. -/
theorem forget_skip (sound : pass.Sound tokens index)
    (here : tokens[index]? = some (some ⟨key, false⟩)) :
    Pass.Sound tokens (index + 1) ⟨pass.pending.erase key, pass.pairs⟩ := by
  refine (sound.forget key).skip here ?_
  intro other source found opens same
  simp only [Option.some.injEq, Occurrence.mk.injEq] at same
  rw [← same.1, AList.lookup_erase] at found
  cases found

theorem opening (sound : pass.Sound tokens index)
    (token : tokens[index]? = some (some ⟨key, true⟩)) :
    (pass.step index (some ⟨key, true⟩)).Sound tokens (index + 1) where
  length := sound.length
  open_entry := by
    intro other source found
    simp only [step, Machine.lookup_insert_eq] at found
    split at found
    · next same =>
      subst same
      split at found
      · cases found
      simp only [Option.some.injEq] at found
      subst found
      have lt := (List.getElem?_eq_some_iff.mp token).1
      refine ⟨by omega, token, sound.unwritten (Nat.le_refl _) lt, ?_⟩
      intro between opens above below
      omega
    next different =>
    obtain ⟨lt, opened, free, apart⟩ := sound.open_entry other source found
    refine ⟨by omega, opened, free, apart_succ apart token ?_⟩
    intro opens same
    simp only [Option.some.injEq, Occurrence.mk.injEq] at same
    exact different same.1.symm
  paired := by
    intro first second found
    obtain ⟨ltFirst, ltSecond, facts⟩ := sound.paired first second found
    exact ⟨by omega, by omega, facts⟩

theorem closing (sound : pass.Sound tokens index) {source : Nat}
    (token : tokens[index]? = some (some ⟨key, false⟩))
    (found : pass.pending.lookup key = some (some source)) :
    (pass.step index (some ⟨key, false⟩)).Sound tokens (index + 1) := by
  obtain ⟨before, opened, free, apart⟩ := sound.open_entry key source found
  have lt := (List.getElem?_eq_some_iff.mp token).1
  have sourceLt : source < pass.pairs.length := by
    have := sound.length
    omega
  have joined : Joined tokens source index := ⟨before, key, opened, token, apart⟩
  simp only [step, found, close]
  refine ⟨?_, ?_, ?_⟩
  · simp only [List.length_set]
    exact sound.length
  · intro other position entry
    rw [Machine.lookup_erase_eq] at entry
    split at entry
    · cases entry
    next different =>
    obtain ⟨positionLt, positionToken, positionFree, positionApart⟩ :=
      sound.open_entry other position entry
    have notSource : source ≠ position := by
      rintro rfl
      rw [opened] at positionToken
      simp only [Option.some.injEq, Occurrence.mk.injEq, and_true] at positionToken
      exact different positionToken.symm
    refine ⟨by omega, positionToken, ?_, apart_succ positionApart token ?_⟩
    · rw [List.getElem?_set_ne (by omega), List.getElem?_set_ne notSource]
      exact positionFree
    · intro opens same
      simp only [Option.some.injEq, Occurrence.mk.injEq] at same
      exact different same.1.symm
  · intro first second entry
    by_cases atIndex : first = index
    · subst atIndex
      rw [List.getElem?_set_self (by simp only [List.length_set]; have := sound.length; omega)]
        at entry
      simp only [Option.some.injEq] at entry
      subst entry
      refine ⟨by omega, by omega, ?_, .inr joined⟩
      rw [List.getElem?_set_ne (by omega), List.getElem?_set_self sourceLt]
    rw [List.getElem?_set_ne (Ne.symm atIndex)] at entry
    by_cases atSource : first = source
    · subst atSource
      rw [List.getElem?_set_self sourceLt] at entry
      simp only [Option.some.injEq] at entry
      subst entry
      refine ⟨by omega, by omega, ?_, .inl joined⟩
      rw [List.getElem?_set_self (by simp only [List.length_set]; have := sound.length; omega)]
    rw [List.getElem?_set_ne (Ne.symm atSource)] at entry
    obtain ⟨firstLt, secondLt, back, joins⟩ := sound.paired first second entry
    have notSource : source ≠ second := by
      rintro rfl
      rw [free] at back
      cases back
    refine ⟨by omega, by omega, ?_, joins⟩
    rw [List.getElem?_set_ne (by omega), List.getElem?_set_ne notSource]
    exact back

theorem step (sound : pass.Sound tokens index) (here : tokens[index]? = some token) :
    (pass.step index token).Sound tokens (index + 1) := by
  rcases token with _ | ⟨key, opens⟩
  · exact sound.skip here (fun _ _ _ _ same => by cases same)
  cases opens with
  | true => exact sound.opening here
  | false =>
    rcases found : pass.pending.lookup key with _ | _ | source
    · simp only [Pass.step, found, close]
      exact sound.forget_skip here
    · simp only [Pass.step, found, close]
      exact sound.forget_skip here
    · exact sound.closing here found

end Pass.Sound

/-- A pass over the rest of the tokens. -/
theorem Pass.Sound.run {tokens rest : List (Option (Occurrence κ))} {index : Nat} {pass : Pass κ}
    (sound : pass.Sound tokens index) (left : tokens.drop index = rest) :
    (pass.run index rest).Sound tokens (index + rest.length) := by
  induction rest generalizing index pass with
  | nil => exact sound
  | cons token rest ih =>
    obtain ⟨here, after⟩ := drop_eq_cons left
    have ran := ih (sound.step here) after
    rwa [Nat.add_assoc, Nat.add_comm 1] at ran
where
  drop_eq_cons {tokens rest : List (Option (Occurrence κ))} {index : Nat}
      {token : Option (Occurrence κ)} (left : tokens.drop index = token :: rest) :
      tokens[index]? = some token ∧ tokens.drop (index + 1) = rest := by
    refine ⟨?_, ?_⟩
    · rw [← List.head?_drop, left]
      rfl
    · rw [← List.tail_drop, left]
      rfl

/-- Paired occurrences point at each other, the opening one first. -/
theorem pairing_joined {tokens : List (Option (Occurrence κ))} {first second : Nat}
    (found : (pairing tokens)[first]? = some (some second)) :
    (pairing tokens)[second]? = some (some first) ∧
      (Joined tokens first second ∨ Joined tokens second first) :=
  ((Pass.sound_initial tokens).run rfl).paired first second found |>.2.2

theorem length_pairing (tokens : List (Option (Occurrence κ))) :
    (pairing tokens).length = tokens.length :=
  ((Pass.sound_initial tokens).run rfl).length

/-! ## Which occurrences are paired -/

/-- How many opening occurrences of a key wait: none, one, or several. -/
inductive Open where
  | absent
  | unique
  | ambiguous
  deriving DecidableEq, Repr

def Open.push : Open → Open
  | absent => unique
  | unique => ambiguous
  | ambiguous => ambiguous

/-- Whether the next occurrence of `key` closes it. -/
def closesNext (key : κ) : List (Option (Occurrence κ)) → Bool
  | [] => false
  | none :: tokens => closesNext key tokens
  | some token :: tokens => if token.key = key then !token.opens else closesNext key tokens

/-- Whether each token is a paired occurrence, when the keys are open as `opened` says before. -/
def settled (opened : κ → Open) : List (Option (Occurrence κ)) → List Bool
  | [] => []
  | none :: tokens => false :: settled opened tokens
  | some ⟨key, true⟩ :: tokens =>
      (opened key = .absent && closesNext key tokens) ::
        settled (Function.update opened key (opened key).push) tokens
  | some ⟨key, false⟩ :: tokens =>
      (opened key = .unique) :: settled (Function.update opened key .absent) tokens

theorem length_settled (opened : κ → Open) (tokens : List (Option (Occurrence κ))) :
    (settled opened tokens).length = tokens.length := by
  fun_induction settled opened tokens with
  | case1 => rfl
  | case2 opened tokens ih | case3 opened key tokens ih | case4 opened key tokens ih =>
      simp only [List.length_cons, ih]

/-- A key's entry in the table of open keys. -/
def Open.ofEntry : Option (Option Nat) → Open
  | none => absent
  | some (some _) => unique
  | some none => ambiguous

def Pass.opened (pass : Pass κ) (key : κ) : Open := .ofEntry (pass.pending.lookup key)

theorem Pass.opened_opening (pass : Pass κ) (index : Nat) (key : κ) :
    (pass.step index (some ⟨key, true⟩)).opened =
      Function.update pass.opened key (pass.opened key).push := by
  funext other
  simp only [opened, step, Machine.lookup_insert_eq, Function.update_apply]
  split
  · rcases pass.pending.lookup key with _ | _ | source <;> rfl
  · rfl

theorem Pass.opened_closing (pass : Pass κ) (index : Nat) (key : κ) :
    (pass.step index (some ⟨key, false⟩)).opened = Function.update pass.opened key .absent := by
  funext other
  simp only [opened, step, Machine.lookup_erase_eq, Function.update_apply]
  split <;> rfl

namespace Pass.Sound

variable {tokens rest : List (Option (Occurrence κ))} {index : Nat} {pass : Pass κ}

variable {position : Nat}

/-- A pair once found is not changed. -/
theorem step_keeps {value : Option Nat} (before : position < index)
    (found : pass.pairs[position]? = some value)
    (closed : ∀ key, pass.pending.lookup key ≠ some (some position))
    (token : Option (Occurrence κ)) :
    (pass.step index token).pairs[position]? = some value := by
  rcases token with _ | ⟨key, opens⟩
  · exact found
  cases opens with
  | true => exact found
  | false =>
    rcases entry : pass.pending.lookup key with _ | _ | source
    · simpa only [Pass.step, entry, close] using found
    · simpa only [Pass.step, entry, close] using found
    have notSource : source ≠ position := by
      rintro rfl
      exact closed key entry
    simp only [Pass.step, entry, close]
    rw [List.getElem?_set_ne (by omega), List.getElem?_set_ne notSource]
    exact found

/-- A position that no open key refers to stays so once it lies behind. -/
theorem step_closed (before : position < index)
    (closed : ∀ key, pass.pending.lookup key ≠ some (some position)) (token : Option (Occurrence κ))
    (key : κ) :
    (pass.step index token).pending.lookup key ≠ some (some position) := by
  rcases token with _ | ⟨other, opens⟩
  · exact closed key
  cases opens with
  | true =>
    simp only [Pass.step, Machine.lookup_insert_eq]
    split
    · split
      · simp
      · simp only [ne_eq, Option.some.injEq]
        omega
    · exact closed key
  | false =>
    simp only [Pass.step, Machine.lookup_erase_eq]
    split
    · simp
    · exact closed key

theorem run_keeps (sound : pass.Sound tokens index) (left : tokens.drop index = rest)
    {value : Option Nat} (before : position < index) (found : pass.pairs[position]? = some value)
    (closed : ∀ key, pass.pending.lookup key ≠ some (some position)) :
    (pass.run index rest).pairs[position]? = some value := by
  induction rest generalizing index pass with
  | nil => exact found
  | cons token rest ih =>
    obtain ⟨here, after⟩ := run.drop_eq_cons left
    exact ih (sound.step here) after (by omega) (step_keeps before found closed token)
      (step_closed before closed token)

/-- Closed positions are those that the table does not refer to. -/
theorem closed_of_paired (sound : pass.Sound tokens index) {other : Nat}
    (found : pass.pairs[position]? = some (some other)) (key : κ) :
    pass.pending.lookup key ≠ some (some position) := by
  intro entry
  have free := (sound.open_entry key position entry).2.2.1
  rw [found] at free
  cases free

/-- An open occurrence is paired exactly when the next occurrence of its key closes it. -/
theorem run_open (sound : pass.Sound tokens index) (left : tokens.drop index = rest) {key : κ}
    {source : Nat} (entry : pass.pending.lookup key = some (some source)) :
    ((pass.run index rest).pairs[source]?).map Option.isSome = some (closesNext key rest) := by
  induction rest generalizing index pass with
  | nil =>
    rw [Pass.run, (sound.open_entry key source entry).2.2.1]
    rfl
  | cons token rest ih =>
    obtain ⟨here, after⟩ := run.drop_eq_cons left
    obtain ⟨before, opened, free, -⟩ := sound.open_entry key source entry
    have next := sound.step here
    rcases token with _ | ⟨other, opens⟩
    · exact ih next after entry
    by_cases same : other = key
    · subst same
      cases opens with
      | true =>
        -- A second opening occurrence makes the key ambiguous.
        have closed : ∀ key, (pass.step index (some ⟨other, true⟩)).pending.lookup key ≠
            some (some source) := by
          intro key reached
          simp only [Pass.step, Machine.lookup_insert_eq, entry, Option.isSome_some,
            if_true] at reached
          split at reached
          · cases reached
          · next different =>
            have token := (sound.open_entry key source reached).2.1
            rw [opened] at token
            simp only [Option.some.injEq, Occurrence.mk.injEq, and_true] at token
            exact different token.symm
        rw [Pass.run, next.run_keeps after (by omega) free closed]
        simp [closesNext]
      | false =>
        have written : (pass.step index (some ⟨other, false⟩)).pairs[source]? =
            some (some index) := by
          simp only [Pass.step, entry, close]
          have sourceLt : source < pass.pairs.length := (List.getElem?_eq_some_iff.mp free).1
          rw [List.getElem?_set_ne (by omega), List.getElem?_set_self sourceLt]
        rw [Pass.run, next.run_keeps after (by omega) written (next.closed_of_paired written)]
        simp [closesNext]
    · have kept : (pass.step index (some ⟨other, opens⟩)).pending.lookup key =
          some (some source) := by
        cases opens with
        | true =>
          simp only [Pass.step, Machine.lookup_insert_eq]
          rw [if_neg (Ne.symm same), entry]
        | false =>
          simp only [Pass.step, Machine.lookup_erase_eq]
          rw [if_neg (Ne.symm same), entry]
      rw [Pass.run, ih next after kept]
      simp [closesNext, same]

/-- A position that is neither paired nor open when it lies behind is never paired. -/
theorem run_free (sound : pass.Sound tokens index) (left : tokens.drop index = rest)
    (before : position < index) (free : pass.pairs[position]? = some none)
    (closed : ∀ key, pass.pending.lookup key ≠ some (some position)) :
    ((pass.run index rest).pairs[position]?).map Option.isSome = some false := by
  rw [sound.run_keeps left before free closed]
  rfl

/-- The position of the token about to be read is not open. -/
theorem closed_here (sound : pass.Sound tokens index) (key : κ) :
    pass.pending.lookup key ≠ some (some index) := by
  intro entry
  have before := (sound.open_entry key index entry).1
  omega

/-- Whether the token that a pass reads next ends up paired. -/
theorem run_head (sound : pass.Sound tokens index) {token : Option (Occurrence κ)}
    (left : tokens.drop index = token :: rest) :
    ((pass.run index (token :: rest)).pairs[index]?).map Option.isSome =
      (settled pass.opened (token :: rest)).head? := by
  obtain ⟨here, after⟩ := run.drop_eq_cons left
  have next := sound.step here
  have unwritten := sound.unwritten (Nat.le_refl _) (List.getElem?_eq_some_iff.mp here).1
  rcases token with _ | ⟨key, opens⟩
  · exact next.run_free after (Nat.lt_succ_self _) unwritten (sound.closed_here)
  cases opens with
  | true =>
    rcases entry : pass.pending.lookup key with _ | waiting
    · have opened : (pass.step index (some ⟨key, true⟩)).pending.lookup key =
          some (some index) := by
        simp [Pass.step, entry]
      rw [Pass.run, next.run_open after opened]
      simp [settled, Pass.opened, entry, Open.ofEntry]
    have closed : ∀ other, (pass.step index (some ⟨key, true⟩)).pending.lookup other ≠
        some (some index) := by
      intro other
      simp only [Pass.step, Machine.lookup_insert_eq, entry, Option.isSome_some, if_true]
      split
      · simp
      · exact sound.closed_here other
    rw [Pass.run, next.run_free after (Nat.lt_succ_self _) unwritten closed]
    cases waiting <;> simp [settled, Pass.opened, entry, Open.ofEntry]
  | false =>
    have closed : ∀ other, (pass.step index (some ⟨key, false⟩)).pending.lookup other ≠
        some (some index) := by
      intro other
      simp only [Pass.step, Machine.lookup_erase_eq]
      split
      · simp
      · exact sound.closed_here other
    rcases entry : pass.pending.lookup key with _ | _ | source
    · have free : (pass.step index (some ⟨key, false⟩)).pairs[index]? = some none := by
        simpa only [Pass.step, entry, close] using unwritten
      rw [Pass.run, next.run_free after (Nat.lt_succ_self _) free closed]
      simp [settled, Pass.opened, entry, Open.ofEntry]
    · have free : (pass.step index (some ⟨key, false⟩)).pairs[index]? = some none := by
        simpa only [Pass.step, entry, close] using unwritten
      rw [Pass.run, next.run_free after (Nat.lt_succ_self _) free closed]
      simp [settled, Pass.opened, entry, Open.ofEntry]
    have indexLt := (List.getElem?_eq_some_iff.mp unwritten).1
    have written : (pass.step index (some ⟨key, false⟩)).pairs[index]? =
        some (some source) := by
      simp only [Pass.step, entry, close]
      rw [List.getElem?_set_self (by rwa [List.length_set])]
    rw [Pass.run, next.run_keeps after (Nat.lt_succ_self _) written closed]
    simp [settled, Pass.opened, entry, Open.ofEntry]

theorem settled_tail (pass : Pass κ) (index : Nat) (token : Option (Occurrence κ))
    (rest : List (Option (Occurrence κ))) :
    (settled pass.opened (token :: rest)).tail = settled (pass.step index token).opened rest := by
  rcases token with _ | ⟨key, opens⟩
  · rfl
  · cases opens with
    | true => rw [Pass.opened_opening, settled, List.tail_cons]
    | false => rw [Pass.opened_closing, settled, List.tail_cons]

theorem run_settled (sound : pass.Sound tokens index) (left : tokens.drop index = rest) :
    ((pass.run index rest).pairs.drop index).map Option.isSome = settled pass.opened rest := by
  induction rest generalizing index pass with
  | nil =>
    have done : tokens.length ≤ index := List.drop_eq_nil_iff.mp left
    rw [Pass.run, List.drop_eq_nil_iff.mpr (sound.length ▸ done)]
    rfl
  | cons token rest ih =>
    obtain ⟨here, after⟩ := run.drop_eq_cons left
    have head := sound.run_head left
    have tail := ih (sound.step here) after
    have length := (sound.run left).length
    have indexLt : index < (pass.run index (token :: rest)).pairs.length := by
      rw [length]
      exact (List.getElem?_eq_some_iff.mp here).1
    rw [List.drop_eq_getElem_cons indexLt, List.map_cons]
    rw [List.getElem?_eq_getElem indexLt, Option.map_some] at head
    rw [← settled_tail pass index token rest] at tail
    refine Eq.trans (congrArg₂ List.cons rfl tail) ?_
    exact List.cons_head?_tail head.symm

end Pass.Sound

theorem pairing_isSome (tokens : List (Option (Occurrence κ))) :
    (pairing tokens).map Option.isSome = settled (fun _ => .absent) tokens :=
  (Pass.sound_initial tokens).run_settled rfl

end Pairs

section Repair

variable {α κ : Type} [DecidableEq κ] (occurrence : α → Option (Occurrence κ))

/-- Whether an item opens a key. -/
def opens (item : α) : Bool := (occurrence item).any Occurrence.opens

/-- Whether an item closes a key. -/
def closes (item : α) : Bool := (occurrence item).any (fun token => !token.opens)

/-- Each item with its flag: an unpaired opening item is followed by its answer. -/
def complete (answer : α → α) : List α → List Bool → List α
  | item :: items, paired :: flags =>
      if opens occurrence item && !paired then
        item :: answer item :: complete answer items flags
      else item :: complete answer items flags
  | [], _ => []
  | _ :: _, [] => []

def completeFlags : List α → List Bool → List Bool
  | item :: items, paired :: flags =>
      if opens occurrence item && !paired then true :: true :: completeFlags items flags
      else paired :: completeFlags items flags
  | [], _ => []
  | _ :: _, [] => []

/-- Each item with its flag: an unpaired closing item goes, unless it is exempt. -/
def prune (exempt : α → Bool) : List α → List Bool → List α
  | item :: items, paired :: flags =>
      if closes occurrence item && !paired && !exempt item then prune exempt items flags
      else item :: prune exempt items flags
  | [], _ => []
  | _ :: _, [] => []

def pruneFlags (exempt : α → Bool) : List α → List Bool → List Bool
  | item :: items, paired :: flags =>
      if closes occurrence item && !paired && !exempt item then pruneFlags exempt items flags
      else paired :: pruneFlags exempt items flags
  | [], _ => []
  | _ :: _, [] => []

/-- The two repairs at once: what becomes of one item. -/
def repairOne (answer : α → α) (exempt : α → Bool) (item : α) (paired : Bool) : List α :=
  if paired then [item]
  else if opens occurrence item then [item, answer item]
  else if closes occurrence item && !exempt item then []
  else [item]

def repair (answer : α → α) (exempt : α → Bool) (items : List α) (flags : List Bool) : List α :=
  (items.zip flags).flatMap fun entry => repairOne occurrence answer exempt entry.1 entry.2

variable {occurrence}

variable {item : α} {key : κ}

omit [DecidableEq κ] in
theorem opens_eq {opening : Bool}
    (token : occurrence item = some ⟨key, opening⟩) : opens occurrence item = opening := by
  rw [opens, token]
  rfl

omit [DecidableEq κ] in
theorem closes_eq {opening : Bool}
    (token : occurrence item = some ⟨key, opening⟩) : closes occurrence item = !opening := by
  rw [closes, token]
  rfl

omit [DecidableEq κ] in
theorem opens_of_none (token : occurrence item = none) :
    opens occurrence item = false := by
  rw [opens, token]
  rfl

omit [DecidableEq κ] in
theorem closes_of_none (token : occurrence item = none) :
    closes occurrence item = false := by
  rw [closes, token]
  rfl

section Complete

variable {answer : α → α}
  (answers : ∀ item key, occurrence item = some ⟨key, true⟩ →
    occurrence (answer item) = some ⟨key, false⟩)

variable {items : List α} {flags : List Bool}

omit [DecidableEq κ] in
theorem complete_open (token : occurrence item = some ⟨key, true⟩) :
    complete occurrence answer (item :: items) (false :: flags) =
      item :: answer item :: complete occurrence answer items flags := by
  simp [complete, opens_eq token]

omit [DecidableEq κ] in
theorem complete_keep {paired : Bool} (keeps : opens occurrence item = true → paired = true) :
    complete occurrence answer (item :: items) (paired :: flags) =
      item :: complete occurrence answer items flags := by
  rw [complete, if_neg]
  intro both
  simp only [Bool.and_eq_true, Bool.not_eq_true'] at both
  rw [keeps both.1] at both
  cases both.2

omit [DecidableEq κ] in
theorem completeFlags_open (token : occurrence item = some ⟨key, true⟩) :
    completeFlags occurrence (item :: items) (false :: flags) =
      true :: true :: completeFlags occurrence items flags := by
  simp [completeFlags, opens_eq token]

omit [DecidableEq κ] in
theorem completeFlags_keep {paired : Bool} (keeps : opens occurrence item = true → paired = true) :
    completeFlags occurrence (item :: items) (paired :: flags) =
      paired :: completeFlags occurrence items flags := by
  rw [completeFlags, if_neg]
  intro both
  simp only [Bool.and_eq_true, Bool.not_eq_true'] at both
  rw [keeps both.1] at both
  cases both.2

include answers in
/-- An answer comes behind an item of the same key, so the first occurrence of a key stays. -/
theorem closesNext_complete (key : κ) (items : List α) (flags : List Bool)
    (length : flags.length = items.length) :
    closesNext key ((complete occurrence answer items flags).map occurrence) =
      closesNext key (items.map occurrence) := by
  induction items generalizing flags with
  | nil => rw [complete]
  | cons item items ih =>
    rcases flags with _ | ⟨paired, flags⟩
    · cases length
    have rest := ih flags (by simpa using length)
    rcases token : occurrence item with _ | ⟨other, opening⟩
    · rw [complete_keep (by simp [opens_of_none token])]
      simp only [List.map_cons, token, closesNext, rest]
    by_cases same : other = key
    · rw [complete]
      split <;> simp [token, closesNext, same]
    rw [complete]
    split
    · next unpaired =>
      rw [opens_eq token] at unpaired
      simp only [Bool.and_eq_true] at unpaired
      have answered := answers item other (unpaired.1 ▸ token)
      simp [token, answered, closesNext, same, rest]
    · simp [token, closesNext, same, rest]

/-- The keys that are open in the completed list when they are open as `opened` says in the list
    before: those whose only open occurrence will be closed. -/
def carried (opened : κ → Open) (tokens : List (Option (Occurrence κ))) (key : κ) : Open :=
  if opened key = .unique ∧ closesNext key tokens = true then .unique else .absent

theorem carried_closing (opened : κ → Open) (key : κ) (tokens : List (Option (Occurrence κ))) :
    Function.update (carried opened (some ⟨key, false⟩ :: tokens)) key .absent =
      carried (Function.update opened key .absent) tokens := by
  funext other
  by_cases same : other = key
  · simp [same, carried]
  · simp [same, carried, closesNext, Ne.symm same]

theorem carried_opening_paired {opened : κ → Open} {tokens : List (Option (Occurrence κ))}
    (closed : closesNext key tokens = true) :
    Function.update (carried opened (some ⟨key, true⟩ :: tokens)) key .unique =
      carried (Function.update opened key .unique) tokens := by
  funext other
  by_cases same : other = key
  · simp [same, carried, closed]
  · simp [same, carried, closesNext, Ne.symm same]

theorem carried_opening_unpaired {opened : κ → Open} {tokens : List (Option (Occurrence κ))}
    (unpaired : ¬(opened key = .absent ∧ closesNext key tokens = true)) :
    Function.update (carried opened (some ⟨key, true⟩ :: tokens)) key .absent =
      carried (Function.update opened key (opened key).push) tokens := by
  funext other
  by_cases same : other = key
  · subst same
    cases waiting : opened other with
    | absent =>
      rw [waiting] at unpaired
      simp only [true_and] at unpaired
      simp [carried, Open.push, unpaired]
    | unique => simp [carried, Open.push]
    | ambiguous => simp [carried, Open.push]
  · simp [same, carried, closesNext, Ne.symm same]

theorem carried_opening_key (opened : κ → Open) (key : κ)
    (tokens : List (Option (Occurrence κ))) :
    carried opened (some ⟨key, true⟩ :: tokens) key = .absent := by
  simp [carried, closesNext]

include answers in
/-- In the completed list every opening item and every inserted answer is paired, and the closing
    items are paired as before. -/
theorem settled_complete (opened : κ → Open) (items : List α) :
    settled (carried opened (items.map occurrence))
        ((complete occurrence answer items (settled opened (items.map occurrence))).map
          occurrence) =
      completeFlags occurrence items (settled opened (items.map occurrence)) := by
  induction items generalizing opened with
  | nil => rw [List.map_nil, settled, complete, completeFlags, List.map_nil, settled]
  | cons item items ih =>
    rcases token : occurrence item with _ | ⟨key, opening⟩
    · have keeps : opens occurrence item = true → false = true := by simp [opens_of_none token]
      simp only [List.map_cons, token, settled]
      rw [complete_keep keeps, completeFlags_keep keeps]
      simp only [List.map_cons, token, settled]
      exact congrArg _ (ih opened)
    cases opening with
    | false =>
      have keeps (paired : Bool) : opens occurrence item = true → paired = true := by
        simp [opens_eq token]
      simp only [List.map_cons, token, settled]
      rw [complete_keep (keeps _), completeFlags_keep (keeps _)]
      simp only [List.map_cons, token, settled]
      rw [carried_closing, ih]
      simp [carried, closesNext]
    | true =>
      simp only [List.map_cons, token, settled]
      by_cases paired : opened key = .absent ∧ closesNext key (items.map occurrence) = true
      · rw [complete_keep (by simp [paired]), completeFlags_keep (by simp [paired])]
        simp only [List.map_cons, token, settled]
        rw [carried_opening_key, Open.push, carried_opening_paired paired.2, paired.1,
          Open.push, ih, closesNext_complete answers key items _ (by simp [length_settled])]
      rw [show (decide (opened key = .absent) && closesNext key (items.map occurrence)) = false
          from by simpa using paired, complete_open token, completeFlags_open token]
      simp only [List.map_cons, token, answers item key token, settled]
      rw [carried_opening_key, Open.push, Function.update_idem, Function.update_self,
        carried_opening_unpaired paired, ih]
      simp [closesNext]

omit [DecidableEq κ] in
/-- Every opening item of the completed list is paired there. -/
theorem complete_answered (items : List α) (flags : List Bool)
    (length : flags.length = items.length) :
    List.Forall₂ (fun item paired => opens occurrence item = true → paired = true)
      (complete occurrence answer items flags) (completeFlags occurrence items flags) := by
  induction items generalizing flags with
  | nil => exact .nil
  | cons item items ih =>
    rcases flags with _ | ⟨paired, flags⟩
    · cases length
    have rest := ih flags (by simpa using length)
    rw [complete, completeFlags]
    split
    · exact .cons (fun _ => rfl) (.cons (fun _ => rfl) rest)
    · next keeps =>
      refine .cons (fun opened => ?_) rest
      simpa [opened] using keeps

omit [DecidableEq κ] in
theorem complete_of_answered
    (answered : List.Forall₂ (fun item paired => opens occurrence item = true → paired = true)
      items flags) : complete occurrence answer items flags = items := by
  induction answered with
  | nil => rw [complete]
  | cons keeps _ ih => rw [complete_keep keeps, ih]

end Complete

section Prune

variable {exempt : α → Bool}

variable {items : List α} {flags : List Bool}

omit [DecidableEq κ] in
theorem prune_keep {paired : Bool}
    (keeps : closes occurrence item = true → paired = true ∨ exempt item = true) :
    prune occurrence exempt (item :: items) (paired :: flags) =
        item :: prune occurrence exempt items flags ∧
      pruneFlags occurrence exempt (item :: items) (paired :: flags) =
        paired :: pruneFlags occurrence exempt items flags := by
  have stays : ¬(closes occurrence item && !paired && !exempt item) = true := by
    intro dropped
    simp only [Bool.and_eq_true, Bool.not_eq_true'] at dropped
    rcases keeps dropped.1.1 with isPaired | isExempt
    · rw [isPaired] at dropped
      cases dropped.1.2
    · rw [isExempt] at dropped
      cases dropped.2
  rw [prune, pruneFlags, if_neg stays, if_neg stays]
  exact ⟨rfl, rfl⟩

omit [DecidableEq κ] in
/-- Every closing item that is left is paired or exempt. -/
theorem prune_justified (items : List α) (flags : List Bool)
    (length : flags.length = items.length) :
    List.Forall₂ (fun item paired =>
        closes occurrence item = true → paired = true ∨ exempt item = true)
      (prune occurrence exempt items flags) (pruneFlags occurrence exempt items flags) := by
  induction items generalizing flags with
  | nil => exact .nil
  | cons item items ih =>
    rcases flags with _ | ⟨paired, flags⟩
    · cases length
    have rest := ih flags (by simpa using length)
    rw [prune, pruneFlags]
    split
    · exact rest
    next keeps =>
    refine .cons (fun closed => ?_) rest
    simp only [closed, Bool.true_and, Bool.and_eq_true, Bool.not_eq_true', not_and,
      Bool.not_eq_false] at keeps
    cases paired with
    | true => exact .inl rfl
    | false => exact .inr (keeps rfl)

omit [DecidableEq κ] in
theorem prune_of_justified (justified : List.Forall₂ (fun item paired =>
        closes occurrence item = true → paired = true ∨ exempt item = true) items flags) :
    prune occurrence exempt items flags = items := by
  induction justified with
  | nil => rw [prune]
  | cons keeps _ ih => rw [(prune_keep keeps).1, ih]

omit [DecidableEq κ] in
/-- Pruning keeps what holds of every item and its flag. -/
theorem prune_forall₂ {holds : α → Bool → Prop} (all : List.Forall₂ holds items flags) :
    List.Forall₂ holds (prune occurrence exempt items flags)
      (pruneFlags occurrence exempt items flags) := by
  induction all with
  | nil => exact .nil
  | cons head _ ih =>
    rw [prune, pruneFlags]
    split
    · exact ih
    · exact .cons head ih

/-- The closing occurrence that a single open occurrence waits for is not pruned. -/
theorem closesNext_prune {opened : κ → Open} (waits : opened key = .unique)
    (closed : closesNext key (items.map occurrence) = true) :
    closesNext key ((prune occurrence exempt items
      (settled opened (items.map occurrence))).map occurrence) = true := by
  induction items generalizing opened with
  | nil => cases closed
  | cons item items ih =>
    rcases token : occurrence item with _ | ⟨other, opening⟩
    · simp only [List.map_cons, token, closesNext, settled] at closed ⊢
      rw [(prune_keep (by simp [closes_of_none token])).1]
      simp only [List.map_cons, token, closesNext]
      exact ih waits closed
    by_cases same : other = key
    · subst same
      cases opening with
      | true => simp [token, closesNext] at closed
      | false =>
        simp only [List.map_cons, token, settled, waits]
        rw [(prune_keep (by simp)).1]
        simp [token, closesNext]
    have closedRest : closesNext key (items.map occurrence) = true := by
      simpa [token, closesNext, same] using closed
    cases opening with
    | true =>
      simp only [List.map_cons, token, settled]
      rw [(prune_keep (by simp [closes_eq token])).1]
      simp only [List.map_cons, token, closesNext, same, if_false]
      exact ih (by simp [Ne.symm same, waits]) closedRest
    | false =>
      simp only [List.map_cons, token, settled]
      rw [prune]
      split
      · exact ih (by simp [Ne.symm same, waits]) closedRest
      · simp only [List.map_cons, token, closesNext, same, if_false]
        exact ih (by simp [Ne.symm same, waits]) closedRest

/-- No key is ambiguous, and every open occurrence will be closed. -/
def Clean (opened : κ → Open) (tokens : List (Option (Occurrence κ))) : Prop :=
  ∀ key, opened key = .absent ∨ opened key = .unique ∧ closesNext key tokens = true

theorem Clean.closing {opened : κ → Open} {tokens : List (Option (Occurrence κ))}
    (clean : Clean opened (some ⟨key, false⟩ :: tokens)) :
    Clean (Function.update opened key .absent) tokens := by
  intro other
  by_cases same : other = key
  · simp [same]
  · simpa [same, closesNext, Ne.symm same] using clean other

theorem Clean.opening {opened : κ → Open} {tokens : List (Option (Occurrence κ))}
    (clean : Clean opened (some ⟨key, true⟩ :: tokens)) (closed : closesNext key tokens = true) :
    Clean (Function.update opened key .unique) tokens := by
  intro other
  by_cases same : other = key
  · simp [same, closed]
  · simpa [same, closesNext, Ne.symm same] using clean other

/-- When every opening item is paired, pruning changes no other item's pairing. -/
theorem settled_prune {opened : κ → Open} (clean : Clean opened (items.map occurrence))
    (answered : List.Forall₂ (fun item paired => opens occurrence item = true → paired = true)
      items (settled opened (items.map occurrence))) :
    settled opened ((prune occurrence exempt items
        (settled opened (items.map occurrence))).map occurrence) =
      pruneFlags occurrence exempt items (settled opened (items.map occurrence)) := by
  induction items generalizing opened with
  | nil => rw [List.map_nil, settled, prune, pruneFlags, List.map_nil, settled]
  | cons item items ih =>
    rcases token : occurrence item with _ | ⟨key, opening⟩
    · simp only [List.map_cons, token, settled] at answered clean ⊢
      rw [(prune_keep (by simp [closes_of_none token])).1,
        (prune_keep (by simp [closes_of_none token])).2]
      simp only [List.map_cons, token, settled]
      rw [ih clean (List.forall₂_cons.mp answered).2]
    cases opening with
    | true =>
      simp only [List.map_cons, token, settled] at answered clean ⊢
      obtain ⟨head, rest⟩ := List.forall₂_cons.mp answered
      have paired := head (opens_eq token)
      simp only [Bool.and_eq_true, decide_eq_true_eq] at paired
      rw [paired.1, Open.push] at rest ⊢
      rw [(prune_keep (by simp [paired])).1, (prune_keep (by simp [paired])).2]
      simp only [List.map_cons, token, settled]
      rw [paired.1, Open.push, ih (clean.opening paired.2) rest,
        closesNext_prune (by simp) paired.2, paired.2]
      rfl
    | false =>
      simp only [List.map_cons, token, settled] at answered clean ⊢
      have rest := ih clean.closing (List.forall₂_cons.mp answered).2
      by_cases waits : opened key = .unique
      · rw [(prune_keep (by simp [waits])).1, (prune_keep (by simp [waits])).2]
        simp only [List.map_cons, token, settled]
        rw [rest]
      have absent : opened key = .absent := (clean key).resolve_right fun both => waits both.1
      have same : Function.update opened key .absent = opened := by
        rw [← absent, Function.update_eq_self]
      rw [same] at rest ⊢
      rw [prune, pruneFlags]
      split
      · exact rest
      · simp only [List.map_cons, token, settled]
        rw [same, rest]

end Prune

omit [DecidableEq κ] in
/-- The two repairs, item by item. -/
theorem prune_complete (answer : α → α) (exempt : α → Bool) (items : List α)
    (flags : List Bool) (length : flags.length = items.length) :
    prune occurrence exempt (complete occurrence answer items flags)
        (completeFlags occurrence items flags) =
      repair occurrence answer exempt items flags := by
  induction items generalizing flags with
  | nil => rfl
  | cons item items ih =>
    rcases flags with _ | ⟨paired, flags⟩
    · cases length
    have rest := ih flags (by simpa using length)
    rw [repair, List.zip_cons_cons, List.flatMap_cons, ← repair, ← rest, repairOne]
    cases paired with
    | true =>
      rw [complete_keep (by simp), completeFlags_keep (by simp), (prune_keep (by simp)).1]
      rfl
    | false =>
      rcases token : occurrence item with _ | ⟨key, opening⟩
      · have noOpen := opens_of_none token
        have noClose := closes_of_none token
        rw [complete_keep (by simp [noOpen]), completeFlags_keep (by simp [noOpen]),
          (prune_keep (by simp [noClose])).1]
        simp [noOpen, noClose]
      cases opening with
      | true =>
        rw [complete_open token, completeFlags_open token, (prune_keep (by simp)).1,
          (prune_keep (by simp)).1]
        simp [opens_eq token]
      | false =>
        have noOpen := opens_eq token
        rw [complete_keep (by simp [noOpen]), completeFlags_keep (by simp [noOpen]), prune]
        split
        · next dropped =>
          simp only [Bool.not_false, Bool.and_true] at dropped
          simp [noOpen, dropped]
        · next kept =>
          simp only [Bool.not_false, Bool.and_true, Bool.not_eq_true] at kept
          simp [noOpen, kept]

end Repair

end Codex.Pairing
