import Codex.ApplyPatch.Apply

/-!
# Chains of repeated updates

`validate_mutation_endpoints` (`apply-patch/src/invocation.rs:327`) accepts hunks that touch
distinct endpoints, except that several updates in place may edit one file in sequence. For each
hunk it returns the update whose result it edits. The hunks of one endpoint are then a chain, and
`first_update` (`lib.rs:1529`) names it by its first hunk.
-/

namespace Codex.ApplyPatch

open Codex.Hoare

variable {PathUri Endpoint : Type}

variable {index : Nat}

/-- The rest of a list from an index. -/
theorem drop_cons {α : Type} {items rest : List α} {item : α}
    (split : items.drop index = item :: rest) :
    items[index]? = some item ∧ items.drop (index + 1) = rest := by
  constructor
  · have head := congrArg (·[0]?) split
    simpa [List.getElem?_drop] using head
  · rw [← List.drop_drop, split]
    rfl

section Touches

variable (host : Host PathUri Endpoint) (cwd : PathUri)

/-- The destination of a move. -/
def Hunk.dest (hunk : Hunk) : Option PathUri :=
  hunk.movePath.bind (fun movePath => (joinPath host cwd movePath).toOption)

/-- The endpoints that a hunk mutates. -/
def Hunk.touches (hunk : Hunk) : List Endpoint :=
  (hunk.resolvePath host cwd).toOption.toList.map host.endpoint ++
    (hunk.dest host cwd).toList.map host.endpoint

variable {host cwd}

variable {hunk : Hunk}

theorem dest_of_moves {movePath : Text} {dest : PathUri} (moves : hunk.movePath = some movePath)
    (joined : joinPath host cwd movePath = .ok dest) :
    hunk.dest host cwd = some dest := by
  rw [Hunk.dest, moves, Option.bind_some, joined]
  rfl

theorem dest_of_stays {hunk : Hunk} (stays : hunk.movePath = none) : hunk.dest host cwd = none := by
  rw [Hunk.dest, stays]
  rfl

theorem mem_touches {path : PathUri} (resolved : hunk.resolvePath host cwd = .ok path)
    {endpoint : Endpoint} :
    endpoint ∈ hunk.touches host cwd ↔
      endpoint = host.endpoint path ∨ ∃ dest, hunk.dest host cwd = some dest ∧
        endpoint = host.endpoint dest := by
  rw [Hunk.touches, resolved]
  cases hunk.dest host cwd with
  | none => simp [Except.toOption]
  | some dest => simp [Except.toOption]

theorem inPlace_of_moves {movePath : Text} (moves : hunk.movePath = some movePath) :
    hunk.inPlace = false := by
  cases hunk with
  | addFile path contents => rfl
  | deleteFile path => rfl
  | updateFile path movePath chunks =>
    cases movePath with
    | none => cases moves
    | some movePath => rfl

theorem movePath_of_inPlace (inPlace : hunk.inPlace = true) :
    hunk.movePath = none := by
  cases moves : hunk.movePath with
  | none => rfl
  | some movePath =>
    rw [inPlace_of_moves moves] at inPlace
    cases inPlace

end Touches

section Claims

variable [DecidableEq Endpoint] {host : Host PathUri Endpoint} {cwd : PathUri}

/-- What one hunk does to the table of endpoints. -/
structure Claimed (host : Host PathUri Endpoint) (cwd : PathUri) (index : Nat) (hunk : Hunk)
    (endpoints endpoints' : Endpoints PathUri Endpoint) (previous : Option Nat) : Prop where
  resolves : ∃ path, hunk.resolvePath host cwd = .ok path ∧
    ∀ movePath, hunk.movePath = some movePath → ∃ dest, joinPath host cwd movePath = .ok dest ∧
      host.endpoint path ≠ host.endpoint dest
  touched : ∀ endpoint ∈ hunk.touches host cwd, ∃ path, endpoints'.lookup endpoint =
    some ⟨path, index + 1, hunk.inPlace, snapshotGuarded hunk⟩
  others : ∀ endpoint, endpoint ∉ hunk.touches host cwd →
    endpoints'.lookup endpoint = endpoints.lookup endpoint
  fresh : previous = none → ∀ endpoint ∈ hunk.touches host cwd, endpoints.lookup endpoint = none
  repeats : ∀ earlier, previous = some earlier → hunk.inPlace = true ∧
    ∃ mutated : Mutated PathUri, mutated.inPlace = true ∧ earlier = mutated.hunk - 1 ∧
      ∀ endpoint ∈ hunk.touches host cwd, endpoints.lookup endpoint = some mutated

variable {hunk : Hunk} {endpoints endpoints' : Endpoints PathUri Endpoint}

theorem claimEndpoint_lookup {path : PathUri} {previous : Option Nat}
    (ok : claimEndpoint host index hunk path endpoints = .ok (endpoints', previous)) :
    endpoints' = endpoints.insert (host.endpoint path)
        ⟨path, index + 1, hunk.inPlace, snapshotGuarded hunk⟩ ∧
      ((previous = none ∧ endpoints.lookup (host.endpoint path) = none) ∨
        ∃ mutated, endpoints.lookup (host.endpoint path) = some mutated ∧
          hunk.inPlace = true ∧ mutated.inPlace = true ∧ previous = some (mutated.hunk - 1)) := by
  unfold claimEndpoint at ok
  split at ok
  next absent =>
    cases ok
    exact ⟨rfl, .inl ⟨rfl, absent⟩⟩
  next mutated present =>
    split at ok
    next accepted =>
      cases ok
      simp only [Bool.and_eq_true] at accepted
      exact ⟨rfl, .inr ⟨mutated, present, accepted.1.1.1, accepted.1.1.2, rfl⟩⟩
    next => cases ok

theorem claimHunk_claimed {previous : Option Nat}
    (ok : claimHunk host cwd index hunk endpoints = .ok (endpoints', previous)) :
    Claimed host cwd index hunk endpoints endpoints' previous := by
  unfold claimHunk at ok
  obtain ⟨path, resolved, ok⟩ := bind_ok.mp ok
  cases moves : hunk.movePath with
  | none =>
    rw [moves] at ok
    obtain ⟨rfl, before⟩ := claimEndpoint_lookup ok
    have touches : ∀ endpoint, endpoint ∈ hunk.touches host cwd ↔ endpoint = host.endpoint path := by
      intro endpoint
      rw [mem_touches resolved, dest_of_stays moves]
      simp
    refine ⟨⟨path, resolved, fun _ isMove => by rw [moves] at isMove; cases isMove⟩, ?_, ?_, ?_, ?_⟩
    · intro endpoint member
      rw [(touches endpoint).mp member]
      exact ⟨path, AList.lookup_insert _⟩
    · intro endpoint other
      exact AList.lookup_insert_ne (fun same => other ((touches endpoint).mpr same))
    · intro isNone endpoint member
      rw [(touches endpoint).mp member]
      rcases before with ⟨_, absent⟩ | ⟨mutated, _, _, _, isSome⟩
      · exact absent
      · cases isNone.symm.trans isSome
    intro earlier isSome
    rcases before with ⟨isNone, _⟩ | ⟨mutated, present, inPlace, wasInPlace, isSome'⟩
    · cases isNone.symm.trans isSome
    · refine ⟨inPlace, mutated, wasInPlace, Option.some.inj (isSome.symm.trans isSome'), ?_⟩
      intro endpoint member
      rw [(touches endpoint).mp member]
      exact present
  | some movePath =>
    have notInPlace := inPlace_of_moves moves
    rw [moves] at ok
    obtain ⟨dest, joined, ok⟩ := bind_ok.mp ok
    obtain ⟨⟨between, _⟩, source, ok⟩ := bind_ok.mp ok
    obtain ⟨rfl, beforeSource⟩ := claimEndpoint_lookup source
    obtain ⟨rfl, beforeDest⟩ := claimEndpoint_lookup ok
    have freshSource : endpoints.lookup (host.endpoint path) = none := by
      rcases beforeSource with ⟨_, absent⟩ | ⟨_, _, inPlace, _⟩
      · exact absent
      · cases notInPlace.symm.trans inPlace
    obtain ⟨isNone, freshDest⟩ := beforeDest.resolve_right (by
      rintro ⟨_, _, inPlace, _⟩
      cases notInPlace.symm.trans inPlace)
    have separate : host.endpoint path ≠ host.endpoint dest := by
      intro same
      rw [← same, AList.lookup_insert] at freshDest
      cases freshDest
    rw [AList.lookup_insert_ne separate.symm] at freshDest
    have touches : ∀ endpoint, endpoint ∈ hunk.touches host cwd ↔
        endpoint = host.endpoint path ∨ endpoint = host.endpoint dest := by
      intro endpoint
      rw [mem_touches resolved, dest_of_moves moves joined]
      simp
    refine ⟨⟨path, resolved, ?_⟩, ?_, ?_, ?_, ?_⟩
    · intro movePath' isMove
      cases moves.symm.trans isMove
      exact ⟨dest, joined, separate⟩
    · intro endpoint member
      by_cases isDest : endpoint = host.endpoint dest
      · rw [isDest]
        exact ⟨dest, AList.lookup_insert _⟩
      · rw [((touches endpoint).mp member).resolve_right isDest, AList.lookup_insert_ne separate]
        exact ⟨path, AList.lookup_insert _⟩
    · intro endpoint other
      rw [touches, not_or] at other
      rw [AList.lookup_insert_ne other.2, AList.lookup_insert_ne other.1]
    · intro _ endpoint member
      rcases (touches endpoint).mp member with rfl | rfl
      · exact freshSource
      · exact freshDest
    · intro earlier isSome
      cases isNone.symm.trans isSome

/-- The table knows, of each endpoint that the hunks touch, the last of them. -/
structure Tabled (host : Host PathUri Endpoint) (cwd : PathUri) (hunks : List Hunk)
    (endpoints : Endpoints PathUri Endpoint) : Prop where
  present : ∀ endpoint mutated, endpoints.lookup endpoint = some mutated →
    ∃ index hunk, mutated.hunk = index + 1 ∧ hunks[index]? = some hunk ∧
      mutated.inPlace = hunk.inPlace ∧ endpoint ∈ hunk.touches host cwd ∧
      ∀ later other, index < later → hunks[later]? = some other →
        endpoint ∉ other.touches host cwd
  absent : ∀ endpoint, endpoints.lookup endpoint = none →
    ∀ hunk ∈ hunks, endpoint ∉ hunk.touches host cwd

/-- A hunk after others that validation accepts: it touches what no earlier hunk touches, or
    it repeats the last update in place of its file. -/
structure Accepted (host : Host PathUri Endpoint) (cwd : PathUri) (hunks : List Hunk)
    (hunk : Hunk) (previous : Option Nat) : Prop where
  resolves : ∃ path, hunk.resolvePath host cwd = .ok path ∧
    ∀ movePath, hunk.movePath = some movePath → ∃ dest, joinPath host cwd movePath = .ok dest ∧
      host.endpoint path ≠ host.endpoint dest
  fresh : previous = none → ∀ other ∈ hunks, ∀ endpoint ∈ hunk.touches host cwd,
    endpoint ∉ other.touches host cwd
  repeats : ∀ index, previous = some index → hunk.inPlace = true ∧
    ∃ earlier, hunks[index]? = some earlier ∧ earlier.inPlace = true ∧
      ∀ endpoint ∈ hunk.touches host cwd, endpoint ∈ earlier.touches host cwd ∧
        ∀ later other, index < later → hunks[later]? = some other →
          endpoint ∉ other.touches host cwd

theorem Tabled.accepts {hunks : List Hunk} {previous : Option Nat}
    (tabled : Tabled host cwd hunks endpoints)
    (claimed : Claimed host cwd index hunk endpoints endpoints' previous) :
    Accepted host cwd hunks hunk previous := by
  refine ⟨claimed.resolves, ?_, ?_⟩
  · intro isNone other member endpoint touched
    exact tabled.absent endpoint (claimed.fresh isNone endpoint touched) other member
  intro earlier isSome
  obtain ⟨inPlace, mutated, wasInPlace, rfl, present⟩ := claimed.repeats earlier isSome
  obtain ⟨path, resolved, _⟩ := claimed.resolves
  have source : host.endpoint path ∈ hunk.touches host cwd :=
    (mem_touches resolved).mpr (.inl rfl)
  obtain ⟨index, last, isIndex, found, same, _, _⟩ := tabled.present _ mutated (present _ source)
  rw [isIndex, Nat.add_sub_cancel]
  refine ⟨inPlace, last, found, same ▸ wasInPlace, ?_⟩
  intro endpoint member
  obtain ⟨index', last', isIndex', found', _, touches, later⟩ :=
    tabled.present endpoint mutated (present endpoint member)
  obtain rfl : index' = index := by omega
  cases found.symm.trans found'
  exact ⟨touches, later⟩

theorem Tabled.claim {hunks : List Hunk} {hunk : Hunk}
    {endpoints endpoints' : Endpoints PathUri Endpoint} {previous : Option Nat}
    (tabled : Tabled host cwd hunks endpoints)
    (claimed : Claimed host cwd hunks.length hunk endpoints endpoints' previous) :
    Tabled host cwd (hunks ++ [hunk]) endpoints' := by
  constructor
  · intro endpoint mutated found
    by_cases touched : endpoint ∈ hunk.touches host cwd
    · obtain ⟨path, isMutated⟩ := claimed.touched endpoint touched
      cases isMutated.symm.trans found
      refine ⟨hunks.length, hunk, rfl, List.getElem?_concat_length, rfl, touched, ?_⟩
      intro later other isLater isOther
      have bound := (List.getElem?_eq_some_iff.mp isOther).1
      rw [List.length_append, List.length_singleton] at bound
      omega
    rw [claimed.others endpoint touched] at found
    obtain ⟨index, last, isIndex, isLast, same, touches, later⟩ := tabled.present _ _ found
    have inside := (List.getElem?_eq_some_iff.mp isLast).1
    refine ⟨index, last, isIndex, ?_, same, touches, ?_⟩
    · rw [List.getElem?_append_left inside]
      exact isLast
    intro after other isAfter isOther
    by_cases old : after < hunks.length
    · rw [List.getElem?_append_left old] at isOther
      exact later after other isAfter isOther
    have bound := (List.getElem?_eq_some_iff.mp isOther).1
    rw [List.length_append, List.length_singleton] at bound
    obtain rfl : after = hunks.length := by omega
    rw [List.getElem?_concat_length] at isOther
    rw [← Option.some.inj isOther]
    exact touched
  · intro endpoint none other member
    have untouched : endpoint ∉ hunk.touches host cwd := by
      intro touched
      obtain ⟨path, isMutated⟩ := claimed.touched endpoint touched
      cases isMutated.symm.trans none
    rcases List.mem_append.mp member with old | new
    · exact tabled.absent endpoint ((claimed.others endpoint untouched).symm.trans none) other old
    · rw [List.mem_singleton.mp new]
      exact untouched

/-- The loop of the validation accepts every hunk after those before it. -/
theorem claimHunks_accepts {before hunks : List Hunk} {endpoints : Endpoints PathUri Endpoint}
    {previousUpdates : List (Option Nat)}
    (ok : claimHunks host cwd before.length hunks endpoints = .ok previousUpdates)
    (tabled : Tabled host cwd before endpoints) :
    previousUpdates.length = hunks.length ∧
      ∀ index hunk, hunks[index]? = some hunk → ∃ previous,
        previousUpdates[index]? = some previous ∧
          Accepted host cwd (before ++ hunks.take index) hunk previous := by
  induction hunks generalizing before endpoints previousUpdates with
  | nil =>
    cases ok
    exact ⟨rfl, nofun⟩
  | cons hunk hunks ih =>
    obtain ⟨⟨endpoints', previous⟩, claims, ok⟩ := bind_ok.mp ok
    obtain ⟨later, claimsLater, ok⟩ := bind_ok.mp ok
    cases ok
    have claimed := claimHunk_claimed claims
    have length : before.length + 1 = (before ++ [hunk]).length := by simp
    rw [length] at claimsLater
    obtain ⟨sameLength, accepts⟩ := ih claimsLater (tabled.claim claimed)
    refine ⟨by rw [List.length_cons, List.length_cons, sameLength], ?_⟩
    intro index other found
    cases index with
    | zero =>
      cases found
      refine ⟨previous, rfl, ?_⟩
      rw [List.take_zero, List.append_nil]
      exact tabled.accepts claimed
    | succ index =>
      obtain ⟨previous', isPrevious, accepted⟩ := accepts index other found
      refine ⟨previous', isPrevious, ?_⟩
      rw [List.take_succ_cons, List.append_cons]
      exact accepted

end Claims

section First

variable {previousUpdates : List (Option Nat)}

/-- Every update repeats an earlier one. -/
def Decreasing (previousUpdates : List (Option Nat)) : Prop :=
  ∀ index previous : Nat, previousUpdates[index]?.join = some previous → previous < index

/-- The index is enough fuel. -/
theorem firstUpdateFrom_eq (decreasing : Decreasing previousUpdates) {fuel : Nat}
    (enough : index ≤ fuel) :
    firstUpdateFrom previousUpdates fuel index = firstUpdate previousUpdates index := by
  induction index using Nat.strongRecOn generalizing fuel with
  | ind index ih =>
    have unfolds : ∀ {fuel}, index ≤ fuel → firstUpdateFrom previousUpdates fuel index =
        previousUpdates[index]?.join.elim index (firstUpdate previousUpdates) := by
      intro fuel enough
      cases fuel with
      | zero =>
        obtain rfl : index = 0 := by omega
        cases repeats : previousUpdates[0]?.join with
        | none => rfl
        | some previous => exact absurd (decreasing 0 previous repeats) (Nat.not_lt_zero _)
      | succ fuel =>
        rw [firstUpdateFrom]
        cases repeats : previousUpdates[index]?.join with
        | none => rfl
        | some previous =>
          have earlier := decreasing index previous repeats
          exact ih previous earlier (by omega)
    rw [unfolds enough, firstUpdate, unfolds (Nat.le_refl index)]

theorem firstUpdate_none (fresh : previousUpdates[index]?.join = none) :
    firstUpdate previousUpdates index = index := by
  unfold firstUpdate
  cases index with
  | zero => rfl
  | succ index =>
    rw [firstUpdateFrom, fresh]

theorem firstUpdate_some (decreasing : Decreasing previousUpdates) {previous : Nat}
    (repeats : previousUpdates[index]?.join = some previous) :
    firstUpdate previousUpdates index = firstUpdate previousUpdates previous := by
  have earlier := decreasing index previous repeats
  obtain ⟨fuel, rfl⟩ : ∃ fuel, index = fuel + 1 := ⟨index - 1, by omega⟩
  rw [firstUpdate, firstUpdateFrom, repeats]
  exact firstUpdateFrom_eq decreasing (by omega)

theorem firstUpdate_le (decreasing : Decreasing previousUpdates) (index : Nat) :
    firstUpdate previousUpdates index ≤ index := by
  induction index using Nat.strongRecOn with
  | ind index ih =>
    cases repeats : previousUpdates[index]?.join with
    | none => rw [firstUpdate_none repeats]
    | some previous =>
      have earlier := decreasing index previous repeats
      rw [firstUpdate_some decreasing repeats]
      exact (ih previous earlier).trans (Nat.le_of_lt earlier)

/-- The first update repeats none. -/
theorem firstUpdate_fresh (decreasing : Decreasing previousUpdates) (index : Nat) :
    previousUpdates[firstUpdate previousUpdates index]?.join = none := by
  induction index using Nat.strongRecOn with
  | ind index ih =>
    cases repeats : previousUpdates[index]?.join with
    | none =>
      rw [firstUpdate_none repeats]
      exact repeats
    | some previous =>
      rw [firstUpdate_some decreasing repeats]
      exact ih previous (decreasing index previous repeats)

/-- A first update that is not the update itself is repeated. -/
theorem firstUpdate_repeated (decreasing : Decreasing previousUpdates)
    (differs : firstUpdate previousUpdates index ≠ index) :
    some (firstUpdate previousUpdates index) ∈ previousUpdates := by
  induction index using Nat.strongRecOn with
  | ind index ih =>
    cases repeats : previousUpdates[index]?.join with
    | none => exact absurd (firstUpdate_none repeats) differs
    | some previous =>
      rw [firstUpdate_some decreasing repeats]
      by_cases isFirst : firstUpdate previousUpdates previous = previous
      · rw [isFirst]
        exact List.mem_of_getElem? (Option.join_eq_some_iff.mp repeats)
      · exact ih previous (decreasing index previous repeats) isFirst

end First

section Validated

variable {host : Host PathUri Endpoint} {cwd : PathUri} {hunks : List Hunk}
  {previousUpdates : List (Option Nat)}

/-- Every hunk is accepted after those before it. -/
structure Validated (host : Host PathUri Endpoint) (cwd : PathUri) (hunks : List Hunk)
    (previousUpdates : List (Option Nat)) : Prop where
  length : previousUpdates.length = hunks.length
  accepts : ∀ index hunk, hunks[index]? = some hunk →
    Accepted host cwd (hunks.take index) hunk previousUpdates[index]?.join

theorem validateMutationEndpoints_validated [DecidableEq Endpoint]
    (ok : validateMutationEndpoints host cwd hunks = .ok previousUpdates) :
    Validated host cwd hunks previousUpdates := by
  obtain ⟨length, accepts⟩ := @claimHunks_accepts _ _ _ host cwd [] hunks ∅ _ ok ⟨nofun, nofun⟩
  refine ⟨length, fun index hunk found => ?_⟩
  obtain ⟨previous, isPrevious, accepted⟩ := accepts index hunk found
  rw [isPrevious]
  exact accepted

/-- A repeated update repeats an earlier hunk. -/
theorem Validated.previous (validated : Validated host cwd hunks previousUpdates) {previous : Nat}
    (repeats : previousUpdates[index]?.join = some previous) :
    ∃ hunk earlier, hunks[index]? = some hunk ∧ hunks[previous]? = some earlier ∧
      previous < index ∧ hunk.inPlace = true ∧ earlier.inPlace = true ∧
      ∀ endpoint ∈ hunk.touches host cwd, endpoint ∈ earlier.touches host cwd ∧
        ∀ later other, previous < later → later < index → hunks[later]? = some other →
          endpoint ∉ other.touches host cwd := by
  have inside : index < hunks.length := by
    rw [← validated.length]
    exact (List.getElem?_eq_some_iff.mp (Option.join_eq_some_iff.mp repeats)).1
  have found := List.getElem?_eq_getElem inside
  obtain ⟨inPlace, earlier, isEarlier, wasInPlace, touches⟩ :=
    (validated.accepts index _ found).repeats previous repeats
  have before : previous < index := by
    have bound := (List.getElem?_eq_some_iff.mp isEarlier).1
    rw [List.length_take] at bound
    omega
  rw [List.getElem?_take_of_lt before] at isEarlier
  refine ⟨_, earlier, found, isEarlier, before, inPlace, wasInPlace, ?_⟩
  intro endpoint member
  refine ⟨(touches endpoint member).1, fun later other isLater isBefore isOther => ?_⟩
  apply (touches endpoint member).2 later other isLater
  rw [List.getElem?_take_of_lt isBefore]
  exact isOther

theorem Validated.decreasing (validated : Validated host cwd hunks previousUpdates) :
    Decreasing previousUpdates := by
  intro index previous repeats
  obtain ⟨_, _, _, _, before, _⟩ := validated.previous repeats
  exact before

variable {hunk other : Hunk} {endpoint : Endpoint}

/-- A hunk that repeats none touches what no earlier hunk touches. -/
theorem Validated.fresh (validated : Validated host cwd hunks previousUpdates) {earlier : Nat}
    (isHunk : hunks[index]? = some hunk) (fresh : previousUpdates[index]?.join = none)
    (before : earlier < index) (isOther : hunks[earlier]? = some other)
    (touched : endpoint ∈ hunk.touches host cwd) : endpoint ∉ other.touches host cwd := by
  refine (validated.accepts index hunk isHunk).fresh fresh other ?_ endpoint touched
  apply List.mem_of_getElem?
  rw [List.getElem?_take_of_lt before]
  exact isOther

/-- A hunk that is no update in place repeats none. -/
theorem Validated.not_repeated (validated : Validated host cwd hunks previousUpdates)
    (isHunk : hunks[index]? = some hunk)
    (notInPlace : hunk.inPlace = false) : previousUpdates[index]?.join = none := by
  cases repeats : previousUpdates[index]?.join with
  | none => rfl
  | some previous =>
    obtain ⟨_, _, found, _, _, inPlace, _⟩ := validated.previous repeats
    cases isHunk.symm.trans found
    cases notInPlace.symm.trans inPlace

/-- Two hunks that touch one endpoint are updates in place of one chain. -/
theorem Validated.shared (validated : Validated host cwd hunks previousUpdates) {earlier : Nat}
    (isHunk : hunks[index]? = some hunk) (isOther : hunks[earlier]? = some other)
    (before : earlier < index) (touches : endpoint ∈ hunk.touches host cwd)
    (touched : endpoint ∈ other.touches host cwd) :
    hunk.inPlace = true ∧ other.inPlace = true ∧
      firstUpdate previousUpdates index = firstUpdate previousUpdates earlier := by
  induction index using Nat.strongRecOn generalizing hunk with
  | ind index ih =>
    cases repeats : previousUpdates[index]?.join with
    | none => exact absurd touched (validated.fresh isHunk repeats before isOther touches)
    | some previous =>
      obtain ⟨_, last, found, isLast, isBefore, inPlace, wasInPlace, onlyLast⟩ :=
        validated.previous repeats
      cases isHunk.symm.trans found
      obtain ⟨lastTouches, between⟩ := onlyLast endpoint touches
      have same := firstUpdate_some validated.decreasing repeats
      rcases Nat.lt_trichotomy earlier previous with lower | rfl | higher
      · obtain ⟨_, otherInPlace, chain⟩ := ih previous isBefore isLast lower lastTouches
        exact ⟨inPlace, otherInPlace, same.trans chain⟩
      · cases isLast.symm.trans isOther
        exact ⟨inPlace, wasInPlace, same⟩
      · exact absurd touched (between earlier other higher before isOther)

/-- A chain edits one endpoint. -/
theorem Validated.chain (validated : Validated host cwd hunks previousUpdates)
    (isHunk : hunks[index]? = some hunk) :
    ∃ first, hunks[firstUpdate previousUpdates index]? = some first ∧
      (∀ endpoint ∈ hunk.touches host cwd, endpoint ∈ first.touches host cwd) ∧
      (firstUpdate previousUpdates index ≠ index → hunk.inPlace = true ∧ first.inPlace = true) := by
  induction index using Nat.strongRecOn generalizing hunk with
  | ind index ih =>
    cases repeats : previousUpdates[index]?.join with
    | none =>
      rw [firstUpdate_none repeats]
      exact ⟨hunk, isHunk, fun _ member => member, fun differs => absurd rfl differs⟩
    | some previous =>
      obtain ⟨_, last, found, isLast, isBefore, inPlace, wasInPlace, onlyLast⟩ :=
        validated.previous repeats
      cases isHunk.symm.trans found
      obtain ⟨first, isFirst, touches, both⟩ := ih previous isBefore isLast
      rw [firstUpdate_some validated.decreasing repeats]
      refine ⟨first, isFirst, fun endpoint member => touches endpoint (onlyLast endpoint member).1,
        fun _ => ⟨inPlace, ?_⟩⟩
      by_cases isLastFirst : firstUpdate previousUpdates previous = previous
      · rw [isLastFirst] at isFirst
        cases isLast.symm.trans isFirst
        exact wasInPlace
      · exact (both isLastFirst).2

/-- Hunks that touch one endpoint are the same, or of one chain. -/
theorem Validated.meet (validated : Validated host cwd hunks previousUpdates) {first second : Nat}
    (isHunk : hunks[first]? = some hunk) (isOther : hunks[second]? = some other)
    (touches : endpoint ∈ hunk.touches host cwd) (touched : endpoint ∈ other.touches host cwd) :
    firstUpdate previousUpdates first = firstUpdate previousUpdates second ∧
      (first ≠ second → hunk.inPlace = true ∧ other.inPlace = true) := by
  rcases Nat.lt_trichotomy first second with before | rfl | after
  · obtain ⟨inPlace, inPlace', same⟩ := validated.shared isOther isHunk before touched touches
    exact ⟨same.symm, fun _ => ⟨inPlace', inPlace⟩⟩
  · exact ⟨rfl, fun differs => absurd rfl differs⟩
  · obtain ⟨inPlace, inPlace', same⟩ := validated.shared isHunk isOther after touches touched
    exact ⟨same, fun _ => ⟨inPlace, inPlace'⟩⟩

/-- The source endpoint of a hunk. -/
theorem source_touched {path : PathUri} (resolved : hunk.resolvePath host cwd = .ok path) :
    host.endpoint path ∈ hunk.touches host cwd :=
  (mem_touches resolved).mpr (.inl rfl)

theorem Validated.firstUpdate_first (validated : Validated host cwd hunks previousUpdates)
    (index : Nat) :
    firstUpdate previousUpdates (firstUpdate previousUpdates index) =
      firstUpdate previousUpdates index :=
  firstUpdate_none (firstUpdate_fresh validated.decreasing index)

/-- The hunk is the last of its chain below the bound. -/
def LastOf (hunks : List Hunk) (previousUpdates : List (Option Nat)) (bound index : Nat) : Prop :=
  ∀ later other, index < later → later < bound → hunks[later]? = some other →
    firstUpdate previousUpdates later ≠ firstUpdate previousUpdates index

theorem LastOf.mono {bound bound' : Nat} (last : LastOf hunks previousUpdates bound' index)
    (le : bound ≤ bound') : LastOf hunks previousUpdates bound index :=
  fun later other isLater inside isOther => last later other isLater (inside.trans_le le) isOther

/-- Every chain has a last hunk. -/
theorem exists_last {index : Nat} {hunk : Hunk} (isHunk : hunks[index]? = some hunk) :
    ∃ last other, index ≤ last ∧ hunks[last]? = some other ∧
      firstUpdate previousUpdates last = firstUpdate previousUpdates index ∧
      LastOf hunks previousUpdates hunks.length last := by
  generalize remaining : hunks.length - index = left
  induction left using Nat.strongRecOn generalizing index hunk with
  | ind left ih =>
    by_cases isLast : LastOf hunks previousUpdates hunks.length index
    · exact ⟨index, hunk, Nat.le_refl _, isHunk, rfl, isLast⟩
    unfold LastOf at isLast
    push Not at isLast
    obtain ⟨later, other, isLater, inside, isOther, same⟩ := isLast
    obtain ⟨last, final, after, isFinal, chain, isLast⟩ :=
      ih (hunks.length - later) (by omega) isOther rfl
    exact ⟨last, final, (Nat.le_of_lt isLater).trans after, isFinal, chain.trans same, isLast⟩

/-- A later hunk of a chain is an update in place. -/
theorem Validated.inPlace_of_chain (validated : Validated host cwd hunks previousUpdates)
    {later : Nat} (isHunk : hunks[index]? = some hunk) (isOther : hunks[later]? = some other)
    (after : index ≤ later)
    (same : firstUpdate previousUpdates later = firstUpdate previousUpdates index)
    (differs : index ≠ later) : hunk.inPlace = true ∧ other.inPlace = true := by
  have before := firstUpdate_le validated.decreasing index
  obtain ⟨first, isFirst, _, both⟩ := validated.chain isOther
  obtain ⟨inPlace, firstInPlace⟩ := both (by omega)
  refine ⟨?_, inPlace⟩
  by_cases own : firstUpdate previousUpdates index = index
  · rw [same, own] at isFirst
    cases isHunk.symm.trans isFirst
    exact firstInPlace
  · obtain ⟨_, _, _, both⟩ := validated.chain isHunk
    exact (both own).1

/-- The hunks of a chain have one source endpoint. -/
theorem Validated.chain_endpoint (validated : Validated host cwd hunks previousUpdates)
    {first : Hunk} {path firstPath : PathUri} (isHunk : hunks[index]? = some hunk)
    (resolved : hunk.resolvePath host cwd = .ok path)
    (isFirst : hunks[firstUpdate previousUpdates index]? = some first)
    (firstResolved : first.resolvePath host cwd = .ok firstPath) :
    host.endpoint path = host.endpoint firstPath := by
  by_cases own : firstUpdate previousUpdates index = index
  · rw [own] at isFirst
    cases isHunk.symm.trans isFirst
    cases resolved.symm.trans firstResolved
    rfl
  · obtain ⟨_, isFirst', touches, both⟩ := validated.chain isHunk
    cases isFirst.symm.trans isFirst'
    have inFirst := touches _ (source_touched resolved)
    rw [mem_touches firstResolved, dest_of_stays (movePath_of_inPlace (both own).2)] at inFirst
    simpa using inFirst

/-- The update that a hunk repeats is the last of its chain before the hunk. -/
theorem Validated.previous_last (validated : Validated host cwd hunks previousUpdates)
    {previous : Nat} (repeats : previousUpdates[index]?.join = some previous) :
    LastOf hunks previousUpdates index previous := by
  obtain ⟨hunk, earlier, isHunk, isEarlier, before, _, _, onlyEarlier⟩ :=
    validated.previous repeats
  intro later other isLater inside isOther same
  obtain ⟨path, resolved, _⟩ := (validated.accepts index hunk isHunk).resolves
  obtain ⟨otherPath, otherResolved, _⟩ := (validated.accepts later other isOther).resolves
  obtain ⟨first, isFirst, _, _⟩ := validated.chain isHunk
  obtain ⟨firstPath, firstResolved, _⟩ := (validated.accepts _ first isFirst).resolves
  have chain := firstUpdate_some validated.decreasing repeats
  have source := validated.chain_endpoint isHunk resolved isFirst firstResolved
  rw [chain, ← same] at isFirst
  have otherSource := validated.chain_endpoint isOther otherResolved isFirst firstResolved
  have touched : host.endpoint otherPath ∈ other.touches host cwd := source_touched otherResolved
  rw [otherSource, ← source] at touched
  exact (onlyEarlier _ (source_touched resolved)).2 later other isLater inside isOther touched

end Validated

end Codex.ApplyPatch
