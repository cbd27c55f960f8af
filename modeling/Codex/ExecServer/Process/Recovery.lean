import Codex.ExecServer.Process.OrderedEvents

/-!
# Invariants of a recovery

Recovery inserts events and publishes them in several loops that can stop with an error. The rules
here take what one insertion or one publication keeps to what a whole recovery keeps. The scan for
absent sequences is compared with the set of them.
-/

namespace Codex.ExecServer.Process.SessionState

/-! ## Absent sequences -/

/-- The sequences of a range that a list does not hold. -/
def absent (first stop : Nat) (seqs : List Nat) : Finset Nat :=
  (Finset.Ico first stop).filter fun seq => seq ∉ seqs

/-- What a scan of some sequences knows: how many lie absent before the next expected one, and
    which, if it is one. -/
structure Scanned (first : Nat) (seqs : List Nat) (scan : Scan) : Prop where
  least : first ≤ scan.expected
  below : ∀ seq ∈ seqs, seq < scan.expected
  missing : scan.missing = (absent first scan.expected seqs).card
  single : ∀ seq, absent first scan.expected seqs = {seq} → scan.exitSeq = some seq
  reached : scan.expected = first ∨ scan.expected - 1 ∈ seqs

theorem scanned_start (first : Nat) : Scanned first [] ⟨first, 0, none⟩ where
  least := le_refl _
  below := by
    intro seq member
    cases member
  missing := by simp [absent]
  single := by
    intro seq isSingle
    have member : seq ∈ absent first first [] := by
      rw [isSingle]
      exact Finset.mem_singleton_self _
    simp [absent] at member
  reached := .inl rfl

variable {first expected stop seq targetSeq : Nat} {seqs : List Nat} {scan : Scan}

/-- The absent sequences when the range grows over a hole. -/
theorem absent_hole (least : first ≤ expected) (beyond : expected ≤ stop)
    (below : ∀ seq ∈ seqs, seq < expected) :
    absent first stop seqs = absent first expected seqs ∪ Finset.Ico expected stop := by
  ext seq
  simp only [absent, Finset.mem_union, Finset.mem_filter, Finset.mem_Ico]
  refine ⟨?_, ?_⟩
  · rintro ⟨⟨lower, upper⟩, missing⟩
    by_cases early : seq < expected
    · exact .inl ⟨⟨lower, early⟩, missing⟩
    · exact .inr ⟨not_lt.mp early, upper⟩
  rintro (⟨⟨lower, upper⟩, missing⟩ | ⟨lower, upper⟩)
  · exact ⟨⟨lower, lt_of_lt_of_le upper beyond⟩, missing⟩
  · refine ⟨⟨le_trans least lower, upper⟩, ?_⟩
    intro member
    have less := below seq member
    omega

theorem card_hole (least : first ≤ expected) (beyond : expected ≤ stop)
    (below : ∀ seq ∈ seqs, seq < expected) :
    (absent first stop seqs).card = (absent first expected seqs).card + (stop - expected) := by
  rw [absent_hole least beyond below, Finset.card_union_of_disjoint, Nat.card_Ico]
  rw [Finset.disjoint_left]
  intro seq inside outside
  simp only [absent, Finset.mem_filter, Finset.mem_Ico] at inside outside
  omega

/-- A sequence that the list holds is not absent. -/
theorem absent_snoc (first seq : Nat) (seqs : List Nat) :
    absent first (seq + 1) (seqs ++ [seq]) = absent first seq (seqs ++ [seq]) := by
  ext other
  simp only [absent, Finset.mem_filter, Finset.mem_Ico, List.mem_append, List.mem_singleton]
  refine ⟨?_, ?_⟩
  · rintro ⟨⟨lower, upper⟩, missing⟩
    refine ⟨⟨lower, ?_⟩, missing⟩
    have different : other ≠ seq := fun same => missing (.inr same)
    omega
  · rintro ⟨⟨lower, upper⟩, missing⟩
    exact ⟨⟨lower, by omega⟩, missing⟩

theorem absent_append_of_ge (outside : stop ≤ seq) :
    absent first stop (seqs ++ [seq]) = absent first stop seqs := by
  ext other
  simp only [absent, Finset.mem_filter, Finset.mem_Ico, List.mem_append, List.mem_singleton]
  refine ⟨?_, ?_⟩
  · rintro ⟨bounds, missing⟩
    exact ⟨bounds, fun member => missing (.inl member)⟩
  · rintro ⟨bounds, missing⟩
    refine ⟨bounds, ?_⟩
    rintro (member | same)
    · exact missing member
    · omega

theorem absent_append_of_mem (member : seq ∈ seqs) :
    absent first stop (seqs ++ [seq]) = absent first stop seqs := by
  ext other
  simp only [absent, Finset.mem_filter, Finset.mem_Ico, List.mem_append, List.mem_singleton]
  refine ⟨?_, ?_⟩
  · rintro ⟨bounds, missing⟩
    exact ⟨bounds, fun inside => missing (.inl inside)⟩
  · rintro ⟨bounds, missing⟩
    refine ⟨bounds, ?_⟩
    rintro (inside | same)
    · exact missing inside
    · exact missing (same ▸ member)

/-- One visited sequence, not before the ones visited already. -/
theorem Scanned.visit (scanned : Scanned first seqs scan) (least : first ≤ seq)
    (sorted : ∀ other ∈ seqs, other ≤ seq) :
    Scanned first (seqs ++ [seq]) (scan.visit seq) := by
  have start := scanned.least
  have below : ∀ other ∈ seqs ++ [seq], other < seq + 1 := by
    intro other member
    rcases List.mem_append.mp member with older | isLast
    · exact Nat.lt_succ_of_le (sorted other older)
    · rw [List.mem_singleton.mp isLast]
      exact Nat.lt_succ_self _
  by_cases beyond : seq > scan.expected
  · have expected : (scan.visit seq).expected = seq + 1 := by
      simp only [Scan.visit]
      omega
    have hole : absent first (seq + 1) (seqs ++ [seq]) = absent first seq seqs := by
      rw [absent_snoc, absent_append_of_ge (le_refl _)]
    have count := card_hole start (le_of_lt beyond) scanned.below
    refine ⟨by omega, ?_, ?_, ?_, .inr ?_⟩
    · rwa [expected]
    · rw [expected, hole, count, ← scanned.missing, Scan.visit, if_pos beyond]
    · intro single isSingle
      rw [expected, hole] at isSingle
      have member : scan.expected ∈ absent first seq seqs := by
        rw [absent_hole start (le_of_lt beyond) scanned.below]
        exact Finset.mem_union_right _ (Finset.mem_Ico.mpr ⟨le_refl _, beyond⟩)
      rw [isSingle, Finset.mem_singleton] at member
      rw [Scan.visit, ← member]
      exact if_pos beyond
    · rw [expected, Nat.add_sub_cancel]
      exact List.mem_append_right _ (List.mem_singleton_self _)
  · have sameMissing : (scan.visit seq).missing = scan.missing := if_neg beyond
    have sameExit : (scan.visit seq).exitSeq = scan.exitSeq := if_neg beyond
    by_cases isNext : seq = scan.expected
    · have expected : (scan.visit seq).expected = seq + 1 := by
        simp only [Scan.visit]
        omega
      have hole : absent first (seq + 1) (seqs ++ [seq]) = absent first scan.expected seqs := by
        rw [absent_snoc, absent_append_of_ge (le_refl _), isNext]
      refine ⟨by omega, ?_, ?_, ?_, .inr ?_⟩
      · rwa [expected]
      · rw [expected, hole, sameMissing, scanned.missing]
      · intro single isSingle
        rw [expected, hole] at isSingle
        rw [sameExit]
        exact scanned.single single isSingle
      · rw [expected, Nat.add_sub_cancel]
        exact List.mem_append_right _ (List.mem_singleton_self _)
    · -- A sequence below the expected one is the last that was visited.
      have held : seq ∈ seqs := by
        rcases scanned.reached with atStart | member
        · omega
        · have le := sorted _ member
          have isLast : scan.expected - 1 = seq := by omega
          exact isLast ▸ member
      have expected : (scan.visit seq).expected = scan.expected := by
        simp only [Scan.visit]
        omega
      refine ⟨by rw [expected]; exact start, ?_, ?_, ?_, ?_⟩
      · intro other member
        rw [expected]
        rcases List.mem_append.mp member with older | isLast
        · exact scanned.below other older
        · rw [List.mem_singleton.mp isLast]
          exact scanned.below seq held
      · rw [expected, sameMissing, absent_append_of_mem held, scanned.missing]
      · intro single isSingle
        rw [expected, absent_append_of_mem held] at isSingle
        rw [sameExit]
        exact scanned.single single isSingle
      · rw [expected]
        rcases scanned.reached with atStart | member
        · exact .inl atStart
        · exact .inr (List.mem_append_left _ member)

theorem Scanned.visitAll {rest : List Nat} (scanned : Scanned first seqs scan)
    (least : ∀ seq ∈ rest, first ≤ seq) (sorted : (seqs ++ rest).Pairwise (· ≤ ·)) :
    Scanned first (seqs ++ rest) (rest.foldl Scan.visit scan) := by
  induction rest generalizing seqs scan with
  | nil =>
    rw [List.append_nil]
    exact scanned
  | cons seq rest ih =>
    have before : ∀ other ∈ seqs, other ≤ seq := by
      intro other member
      exact (List.pairwise_append.mp sorted).2.2 other member seq List.mem_cons_self
    have visited := scanned.visit (least seq List.mem_cons_self) before
    rw [List.append_cons] at sorted
    have all := ih visited (fun other member => least other (List.mem_cons_of_mem _ member)) sorted
    rwa [← List.append_cons] at all

/-- The whole range: the absent sequences up to the target. -/
theorem Scanned.finish (scanned : Scanned first seqs scan) (inside : ∀ seq ∈ seqs, seq ≤ targetSeq)
    (range : first ≤ targetSeq + 1) :
    (scan.finish targetSeq).missing = (absent first (targetSeq + 1) seqs).card ∧
      ∀ seq, absent first (targetSeq + 1) seqs = {seq} →
        (scan.finish targetSeq).exitSeq = some seq := by
  unfold Scan.finish
  by_cases short : scan.expected ≤ targetSeq
  · rw [if_pos short]
    have count := card_hole scanned.least (Nat.le_succ_of_le short) scanned.below
    refine ⟨?_, ?_⟩
    · rw [count, ← scanned.missing]
      dsimp only
      omega
    intro seq isSingle
    have member : scan.expected ∈ absent first (targetSeq + 1) seqs := by
      rw [absent_hole scanned.least (Nat.le_succ_of_le short) scanned.below]
      exact Finset.mem_union_right _ (Finset.mem_Ico.mpr ⟨le_refl _, Nat.lt_succ_of_le short⟩)
    rw [isSingle, Finset.mem_singleton] at member
    rw [← member]
  · rw [if_neg short]
    have expected : scan.expected = targetSeq + 1 := by
      rcases scanned.reached with atStart | member
      · omega
      · have le := inside _ member
        omega
    refine ⟨?_, ?_⟩
    · rw [← expected]
      exact scanned.missing
    · rw [← expected]
      exact scanned.single

/-- The scan counts the absent sequences, and names the absent one if it is alone. -/
theorem scanMissing_spec {output pending : List Nat} (outputSorted : output.Pairwise (· ≤ ·))
    (pendingSorted : pending.Pairwise (· ≤ ·)) (least : ∀ seq ∈ output ++ pending, first ≤ seq)
    (inside : ∀ seq ∈ output ++ pending, seq ≤ targetSeq) (range : first ≤ targetSeq + 1) :
    (scanMissing first targetSeq output pending).missing =
        (absent first (targetSeq + 1) (output ++ pending)).card ∧
      ∀ seq, absent first (targetSeq + 1) (output ++ pending) = {seq} →
        (scanMissing first targetSeq output pending).exitSeq = some seq := by
  generalize isMerged : List.merge output pending (fun a b => decide (a ≤ b)) = merged
  have same : ∀ seq, seq ∈ merged ↔ seq ∈ output ++ pending := by
    intro seq
    rw [← isMerged, List.mem_merge, List.mem_append]
  have sorted : merged.Pairwise (· ≤ ·) := by
    rw [← isMerged]
    exact outputSorted.merge pendingSorted
  have visited := (scanned_start first).visitAll
    (fun seq member => least seq ((same seq).mp member)) (by simpa using sorted)
  rw [List.nil_append] at visited
  have sets : absent first (targetSeq + 1) (output ++ pending) =
      absent first (targetSeq + 1) merged := by
    ext seq
    simp only [absent, Finset.mem_filter, same]
  have finished := visited.finish (fun seq member => inside seq ((same seq).mp member)) range
  rw [sets, scanMissing, isMerged]
  exact finished

/-! ## Faithful sessions -/

theorem InGap.of_append {first second : List ExecProcessEvent} {start middle : Nat}
    (front : Tiles start first middle) (inGap : InGap start (first ++ second) seq) :
    InGap start first seq ∨ InGap middle second seq := by
  induction first generalizing start with
  | nil =>
    cases front
    exact .inr inGap
  | cons event rest ih =>
    rcases inGap with here | later
    · exact .inl (.inl here)
    · rcases ih front.2 later with early | late
      · exact .inl (.inr early)
      · exact .inr late

theorem Tiles.inGap_le {events : List ExecProcessEvent} {start : Nat}
    (tiles : Tiles start events stop) (inGap : InGap start events seq) : seq ≤ stop := by
  induction events generalizing start with
  | nil => cases inGap
  | cons first rest ih =>
    rcases inGap with here | later
    · exact le_trans here.2.2 tiles.2.le
    · exact ih tiles.2 later

/-- What a session may publish: where it starts and whether the exit came before, which events are
    genuine, and which sequences no gap may cover. -/
structure Contract where
  start : Nat
  exitKnown : Bool
  limit : Nat
  Genuine : ExecProcessEvent → Prop
  Kept : Nat → Prop
  bounded : ∀ event seq, Genuine event → event.seq = some seq → seq ≤ limit
  keeps : ∀ event seq, Genuine event → event.seq = some seq → Kept seq → isGap event = false

/-- The published events tile the way from the start, all of them but gaps are genuine, and no gap
    covers a kept sequence; the events are counted. -/
structure Faithful (contract : Contract) (budget : Nat) (session : SessionState) : Prop where
  waiting : session.Waiting
  tiles : Tiles contract.start session.published session.lastPublishedSeq
  limited : session.lastPublishedSeq ≤ contract.limit
  pendingGenuine : ∀ seq event, session.pending.get seq = some event → contract.Genuine event
  publishedGenuine : ∀ event ∈ session.published, isGap event = false → contract.Genuine event
  kept : ∀ seq, contract.Kept seq → ¬ InGap contract.start session.published seq
  exits : session.exitPublished = (contract.exitKnown || session.published.any isExited)
  closes : session.closedPublished = session.published.any isClosed
  count : session.published.length + session.pending.length ≤ budget

section

variable {contract : Contract} {budget : Nat} {session after : SessionState}

theorem Faithful.mono (faithful : Faithful contract budget session) {more : Nat}
    (le : budget ≤ more) : Faithful contract more session :=
  { faithful with count := le_trans faithful.count le }

/-- A kept sequence before the cursor was published. -/
theorem Faithful.published_of_kept (faithful : Faithful contract budget session)
    (kept : contract.Kept seq) (above : contract.start < seq)
    (below : seq ≤ session.lastPublishedSeq) :
    ∃ event ∈ session.published, event.seq = some seq ∧ isGap event = false := by
  rcases faithful.tiles.covered above below with inGap | found
  · exact absurd inGap (faithful.kept seq kept)
  · exact found

theorem Faithful.published (faithful : Faithful contract budget session)
    {new : List ExecProcessEvent} (published : Published session after new)
    (gapLimit : session.outputGapThrough ≤ contract.limit ∨
      session.outputGapThrough ≤ session.lastPublishedSeq)
    (gapKept : ∀ seq, contract.Kept seq → session.lastPublishedSeq < seq →
      seq ≤ session.outputGapThrough → (session.pending.get seq).isSome = true) :
    Faithful contract (session.published.length + new.length + after.pending.length) after where
  waiting := published.waiting faithful.waiting
  tiles := by
    rw [published.events]
    exact faithful.tiles.append published.tiles
  limited := by
    have le := published.tiles.le
    rcases Nat.eq_or_lt_of_le le with same | beyond
    · rw [← same]
      exact faithful.limited
    rcases published.covered _ beyond (le_refl _) with ⟨event, -, found⟩ | ⟨inside, -⟩
    · exact contract.bounded event _ (faithful.pendingGenuine _ event found)
        (faithful.waiting _ event found).1
    · rcases gapLimit with limited | passed
      · exact le_trans inside limited
      · omega
  pendingGenuine := by
    intro seq event found
    exact faithful.pendingGenuine seq event (published.rest seq event found).1
  publishedGenuine := by
    intro event member notGap
    rw [published.events] at member
    rcases List.mem_append.mp member with older | new
    · exact faithful.publishedGenuine event older notGap
    · rcases published.source event new with gap | ⟨seq, found⟩
      · rw [notGap] at gap
        cases gap
      · exact faithful.pendingGenuine seq event found
  kept := by
    intro seq kept inGap
    rw [published.events] at inGap
    rcases inGap.of_append faithful.tiles with early | late
    · exact faithful.kept seq kept early
    have above := published.tiles.inGap_above late
    rcases published.covered seq above (published.tiles.inGap_le late) with
      ⟨event, member, found⟩ | ⟨inside, absent⟩
    · have isSeq := (faithful.waiting seq event found).1
      have notGap := contract.keeps event seq (faithful.pendingGenuine seq event found) isSeq kept
      exact published.tiles.not_inGap member isSeq notGap late
    · have present := gapKept seq kept above inside
      rw [absent] at present
      cases present
  exits := by
    rw [published.exitPublished, faithful.exits, published.events, List.any_append, Bool.or_assoc]
  closes := by
    rw [published.closedPublished, faithful.closes, published.events, List.any_append]
  count := by
    rw [published.events, List.length_append]

/-- Publishing what is ready, when no declared gap is open. -/
theorem Faithful.publishReady (faithful : Faithful contract budget session)
    (passed : session.outputGapThrough ≤ session.lastPublishedSeq) :
    Faithful contract budget session.publishReady.1 := by
  obtain ⟨new, published, -, -⟩ := publishReady_spec faithful.waiting
  have next := faithful.published published (.inr passed) (by
    intro seq _ above inside
    omega)
  apply next.mono
  have count := faithful.count
  have fewer := published.count passed
  omega

variable {event : ExecProcessEvent}

/-- What an insertion did. -/
theorem insertPending_ok (isSeq : event.seq = some seq)
    (inserted : session.insertPending event = .ok after) :
    (after = session ∧ (session.pending.get seq).isSome = true) ∨
      (session.pending.get seq = none ∧
        after = { session with
          pending := session.pending.insert seq event
          pendingBytes := session.pendingBytes + event.bytes }) := by
  rw [insertPending, isSeq] at inserted
  dsimp only at inserted
  split at inserted
  · next present =>
    cases inserted
    exact .inl ⟨rfl, present⟩
  next missing =>
  right
  refine ⟨by simpa using missing, ?_⟩
  split at inserted
  · cases inserted
  split at inserted
  · cases inserted
  · split at inserted
    · cases inserted
    · cases inserted
      rfl

/-- A genuine event past the cursor may wait. -/
theorem Faithful.insertPending (faithful : Faithful contract budget session)
    (isSeq : event.seq = some seq) (beyond : session.lastPublishedSeq < seq)
    (genuine : contract.Genuine event) (inserted : session.insertPending event = .ok after) :
    Faithful contract (budget + 1) after := by
  rcases insertPending_ok isSeq inserted with ⟨rfl, -⟩ | ⟨missing, rfl⟩
  · exact faithful.mono (Nat.le_succ _)
  refine ⟨?_, faithful.tiles, faithful.limited, ?_, faithful.publishedGenuine, faithful.kept,
    faithful.exits, faithful.closes, ?_⟩
  · intro other waiting found
    dsimp only at found
    rw [OrderedMap.get_insert] at found
    split at found
    · next same =>
      cases found
      exact ⟨same ▸ isSeq, same ▸ beyond⟩
    · exact faithful.waiting other waiting found
  · intro other waiting found
    dsimp only at found
    rw [OrderedMap.get_insert] at found
    split at found
    · cases found
      exact genuine
    · exact faithful.pendingGenuine other waiting found
  · have count := faithful.count
    dsimp only
    rw [OrderedMap.length_insert missing]
    omega

/-- The cursor passes over absent sequences that need not be kept. -/
theorem Faithful.skipTo (faithful : Faithful contract budget session) {throughSeq : Nat}
    (beyond : session.lastPublishedSeq < throughSeq) (limited : throughSeq ≤ contract.limit)
    (clear : ∀ seq event, session.pending.get seq = some event → throughSeq < seq)
    (unkept : ∀ seq, contract.Kept seq → session.lastPublishedSeq < seq → ¬ seq ≤ throughSeq) :
    Faithful contract (budget + 1) (session.skipTo throughSeq) where
  waiting := by
    intro seq event found
    exact ⟨(faithful.waiting seq event found).1, clear seq event found⟩
  tiles := faithful.tiles.append (Tiles.gap beyond)
  limited := limited
  pendingGenuine := faithful.pendingGenuine
  publishedGenuine := by
    intro event member notGap
    rcases List.mem_append.mp member with older | new
    · exact faithful.publishedGenuine event older notGap
    · rw [List.mem_singleton.mp new] at notGap
      cases notGap
  kept := by
    intro seq kept inGap
    rcases inGap.of_append faithful.tiles with early | late
    · exact faithful.kept seq kept early
    · have tiles := Tiles.gap beyond
      exact unkept seq kept (tiles.inGap_above late) (tiles.inGap_le late)
  exits := by
    change session.exitPublished = _
    rw [faithful.exits, SessionState.skipTo, List.any_append]
    simp [isExited]
  closes := by
    change session.closedPublished = _
    rw [faithful.closes, SessionState.skipTo, List.any_append]
    simp [isClosed]
  count := by
    have count := faithful.count
    change (session.published ++ [ExecProcessEvent.outputGap throughSeq]).length + session.pending.length ≤ _
    rw [List.length_append, List.length_singleton]
    omega

/-- An event that is ready is published. -/
theorem lt_publishReady (waiting : session.Waiting)
    (found : session.pending.get (session.lastPublishedSeq + 1) = some event) :
    session.lastPublishedSeq < session.publishReady.1.lastPublishedSeq := by
  obtain ⟨new, published, closes, stops⟩ := publishReady_spec waiting
  by_contra stuck
  have le := published.tiles.le
  have same : session.publishReady.1.lastPublishedSeq = session.lastPublishedSeq := by omega
  -- A published event would have moved the cursor.
  have nothing : new.any isClosed = false := by
    rw [List.any_eq_false]
    intro other member
    cases other with
    | closed seq denied =>
      have bounds := published.tiles.bounds member rfl
      omega
    | output _ | outputGap _ | exited _ _ _ | failed _ => exact Bool.false_ne_true
  have unclosed : session.publishReady.2 = false := by
    by_contra closed
    rw [Bool.not_eq_false, closes, nothing] at closed
    cases closed
  have empty := (stops unclosed).1
  rw [same, published.kept nothing _ event found (by omega)] at empty
  cases empty

end

/-! ## Recovery without a gap -/

/-- A recovery under way is faithful; while the exit is unknown, no exit waits; and only the close
    stands at the target of a closed process. -/
structure Recovering (contract : Contract) (response : ReadResponse) (targetSeq budget : Nat)
    (recovery : Recovery) : Prop where
  faithful : Faithful contract budget recovery.session
  passed : recovery.session.outputGapThrough ≤ recovery.session.lastPublishedSeq
  unknown : response.exited = true → recovery.exitKnown = false → recovery.error = none →
    recovery.session.exitPublished = false ∧
      ∀ seq event, recovery.session.pending.get seq = some event → isExited event = false
  closing : response.closed = true → recovery.session.closedPublished = true ∨
    (recovery.session.lastPublishedSeq < targetSeq ∧
      ∀ event, recovery.session.pending.get targetSeq = some event → isClosed event = true)

section

variable {contract : Contract} {response : ReadResponse} {targetSeq budget : Nat}
  {recovery : Recovery}

theorem Recovering.mono (recovering : Recovering contract response targetSeq budget recovery)
    {more : Nat} (le : budget ≤ more) : Recovering contract response targetSeq more recovery :=
  { recovering with faithful := recovering.faithful.mono le }

theorem Recovering.fail (recovering : Recovering contract response targetSeq budget recovery)
    (message : String) : Recovering contract response targetSeq budget (recovery.fail message) where
  faithful := recovering.faithful
  passed := recovering.passed
  unknown := by
    intro _ _ failed
    cases failed
  closing := recovering.closing

/-- The exit may be taken as known at any time. -/
theorem Recovering.know (recovering : Recovering contract response targetSeq budget recovery) :
    Recovering contract response targetSeq budget { recovery with exitKnown := true } where
  faithful := recovering.faithful
  passed := recovering.passed
  unknown := by
    intro _ known _
    cases known
  closing := recovering.closing

/-- What is known about the exit of a failed recovery does not matter. -/
theorem Recovering.unknow
    (recovering : Recovering contract response targetSeq budget { recovery with exitKnown := true })
    (failed : recovery.error.isSome = true) :
    Recovering contract response targetSeq budget recovery where
  faithful := recovering.faithful
  passed := recovering.passed
  unknown := by
    intro _ _ unfailed
    rw [unfailed] at failed
    cases failed
  closing := recovering.closing

theorem Recovering.andThen (recovering : Recovering contract response targetSeq budget recovery)
    {rest : Recovery → Recovery} {more : Nat} (le : budget ≤ more)
    (step : Recovering contract response targetSeq more (rest recovery)) :
    Recovering contract response targetSeq more (recovery.andThen rest) := by
  unfold Recovery.andThen
  split
  · exact recovering.mono le
  · exact step

theorem Recovering.publish (recovering : Recovering contract response targetSeq budget recovery) :
    Recovering contract response targetSeq budget recovery.publish := by
  obtain ⟨new, published, closes, -⟩ := publishReady_spec recovering.faithful.waiting
  have passed := recovering.passed
  have le := published.tiles.le
  refine ⟨recovering.faithful.publishReady passed, ?_, ?_, ?_⟩
  · change recovery.session.publishReady.1.outputGapThrough ≤
      recovery.session.publishReady.1.lastPublishedSeq
    rw [published.outputGapThrough]
    omega
  · intro exited unknown unfailed
    obtain ⟨unpublished, noExit⟩ := recovering.unknown exited unknown unfailed
    refine ⟨?_, ?_⟩
    · change recovery.session.publishReady.1.exitPublished = false
      rw [published.exitPublished, unpublished, Bool.false_or, List.any_eq_false]
      intro event member
      rw [Bool.not_eq_true]
      rcases published.source event member with gap | ⟨seq, found⟩
      · cases event with
        | outputGap _ => rfl
        | output _ => rfl
        | closed _ _ => rfl
        | failed _ => rfl
        | exited _ _ _ => cases gap
      · exact noExit seq event found
    · intro seq event found
      exact noExit seq event (published.rest seq event found).1
  · intro closed
    change recovery.session.publishReady.1.closedPublished = true ∨ _
    rw [published.closedPublished]
    rcases recovering.closing closed with already | ⟨below, onlyClose⟩
    · exact .inl (by rw [already, Bool.true_or])
    by_cases reached : targetSeq ≤ recovery.session.publishReady.1.lastPublishedSeq
    · rcases published.covered targetSeq below reached with ⟨event, member, found⟩ | ⟨inside, -⟩
      · left
        rw [Bool.or_eq_true]
        exact .inr (List.any_eq_true.mpr ⟨event, member, onlyClose event found⟩)
      · omega
    · right
      refine ⟨not_le.mp reached, ?_⟩
      intro event found
      exact onlyClose event (published.rest targetSeq event found).1

variable {event : ExecProcessEvent} {session : SessionState}

/-- A genuine event past the cursor may be inserted. -/
theorem Recovering.insert (recovering : Recovering contract response targetSeq budget recovery)
    (isSeq : event.seq = some seq) (beyond : recovery.session.lastPublishedSeq < seq)
    (genuine : contract.Genuine event)
    (notExit : recovery.exitKnown = true ∨ isExited event = false)
    (atTarget : response.closed = true → seq = targetSeq → isClosed event = true) :
    Recovering contract response targetSeq (budget + 1) (recovery.insert event) := by
  unfold Recovery.insert
  cases inserted : recovery.session.insertPending event with
  | error message => exact (recovering.mono (Nat.le_succ _)).fail message
  | ok after =>
    dsimp only
    have faithful := recovering.faithful.insertPending isSeq beyond genuine inserted
    rcases insertPending_ok isSeq inserted with ⟨rfl, -⟩ | ⟨missing, rfl⟩
    · exact recovering.mono (Nat.le_succ _)
    refine ⟨faithful, recovering.passed, ?_, ?_⟩
    · intro exited unknown unfailed
      obtain ⟨unpublished, noExit⟩ := recovering.unknown exited unknown unfailed
      refine ⟨unpublished, ?_⟩
      intro other waiting found
      dsimp only at found
      rw [OrderedMap.get_insert] at found
      split at found
      · cases found
        rcases notExit with known | plain
        · dsimp only at unknown
          rw [unknown] at known
          cases known
        · exact plain
      · exact noExit other waiting found
    · intro closed
      rcases recovering.closing closed with already | ⟨below, onlyClose⟩
      · exact .inl already
      refine .inr ⟨below, ?_⟩
      intro waiting found
      dsimp only at found
      rw [OrderedMap.get_insert] at found
      split at found
      · next same =>
        cases found
        exact atTarget closed same.symm
      · exact onlyClose waiting found

/-- The exit is inserted before the target of a closed process. -/
theorem Recovering.insertExit (recovering : Recovering contract response targetSeq budget recovery)
    (beyond : recovery.session.lastPublishedSeq < seq)
    (genuine : ∀ exitCode, response.exitCode = some exitCode →
      contract.Genuine (.exited seq exitCode (recoveredDenial response)))
    (known : recovery.exitKnown = true) (inside : response.closed = true → seq ≠ targetSeq) :
    Recovering contract response targetSeq (budget + 1)
      (SessionState.insertExit response seq recovery) := by
  unfold SessionState.insertExit
  cases isCode : response.exitCode with
  | none => exact (recovering.mono (Nat.le_succ _)).fail _
  | some exitCode =>
    apply recovering.insert rfl beyond (genuine exitCode isCode) (.inl known)
    intro closed same
    exact absurd same (inside closed)

/-- Marking the exit as known commutes with its insertion. -/
theorem insertExit_know (response : ReadResponse) (seq : Nat) (recovery : Recovery) :
    SessionState.insertExit response seq { recovery with exitKnown := true } =
      { SessionState.insertExit response seq recovery with exitKnown := true } := by
  unfold SessionState.insertExit
  cases response.exitCode with
  | none => rfl
  | some exitCode =>
    dsimp only [Recovery.insert]
    cases recovery.session.insertPending _ with
    | error message => rfl
    | ok after => rfl

/-- One recovered chunk. -/
theorem Recovering.chunk (recovering : Recovering contract response targetSeq budget recovery)
    {inferredExit : Option Nat} {chunk : ProcessOutputChunk}
    (genuine : chunk.seq ≤ targetSeq → contract.Genuine (.output chunk))
    (inside : response.closed = true → chunk.seq ≠ targetSeq)
    (inferred : ∀ seq exitCode, inferredExit = some seq → response.exitCode = some exitCode →
      contract.Genuine (.exited seq exitCode (recoveredDenial response))) :
    Recovering contract response targetSeq (budget + 2)
      (recoverChunk response targetSeq inferredExit chunk recovery) := by
  unfold recoverChunk
  by_cases exceeds : chunk.seq > targetSeq
  · rw [if_pos exceeds]
    exact (recovering.mono (by omega)).fail _
  rw [if_neg exceeds]
  dsimp only
  have output : ∀ {other : Recovery} {spent : Nat},
      Recovering contract response targetSeq spent other →
      Recovering contract response targetSeq (spent + 1)
        (if chunk.seq > other.session.lastPublishedSeq then
          (other.insert (.output chunk)).andThen Recovery.publish
        else other) := by
    intro other spent current
    split
    · next beyond =>
      have inserted := current.insert rfl beyond (genuine (not_lt.mp exceeds)) (.inr rfl)
        (fun closed same => absurd same (inside closed))
      exact inserted.andThen (le_refl _) inserted.publish
    · exact current.mono (Nat.le_succ _)
  by_cases infer : (!recovery.exitKnown &&
      decide (inferredExit = some (recovery.session.lastPublishedSeq + 1)) &&
      decide (chunk.seq > recovery.session.lastPublishedSeq + 1)) = true
  · rw [if_pos infer]
    simp only [Bool.and_eq_true, Bool.not_eq_true', decide_eq_true_eq] at infer
    obtain ⟨⟨-, isExit⟩, after⟩ := infer
    -- The exit is marked as known before its insertion, which is the same.
    have known := recovering.know.insertExit (Nat.lt_succ_self _)
      (fun exitCode isCode => inferred _ exitCode isExit isCode) rfl
      (by intro _ same; dsimp only at same; omega)
    dsimp only at known
    rw [insertExit_know] at known
    have published := known.publish
    generalize isInserted : SessionState.insertExit response
      (recovery.session.lastPublishedSeq + 1) recovery = inserted at known published
    have first : Recovering contract response targetSeq (budget + 1) (inserted.andThen
        fun recovery => { recovery.publish with exitKnown := true }) := by
      unfold Recovery.andThen
      split
      · next failed => exact known.unknow failed
      · exact published
    exact first.andThen (by omega) (output first)
  · rw [if_neg infer]
    exact recovering.andThen (by omega) ((output recovering).mono (by omega))

theorem Recovering.chunks (recovering : Recovering contract response targetSeq budget recovery)
    {inferredExit : Option Nat} {chunks : List ProcessOutputChunk}
    (genuine : ∀ chunk ∈ chunks, chunk.seq ≤ targetSeq → contract.Genuine (.output chunk))
    (inside : ∀ chunk ∈ chunks, response.closed = true → chunk.seq ≠ targetSeq)
    (inferred : ∀ seq exitCode, inferredExit = some seq → response.exitCode = some exitCode →
      contract.Genuine (.exited seq exitCode (recoveredDenial response))) :
    Recovering contract response targetSeq (budget + 2 * chunks.length)
      (recoverChunks response targetSeq inferredExit chunks recovery) := by
  induction chunks generalizing recovery budget with
  | nil => exact recovering
  | cons chunk chunks ih =>
    rw [recoverChunks]
    have first := recovering.chunk (genuine chunk List.mem_cons_self)
      (inside chunk List.mem_cons_self) inferred
    have rest := ih first
      (fun other member => genuine other (List.mem_cons_of_mem _ member))
      (fun other member => inside other (List.mem_cons_of_mem _ member))
    rw [List.length_cons]
    exact first.andThen (by omega) (rest.mono (by omega))

/-- The first missing sequence of an ascending list. -/
theorem firstMissing_spec (ascending : seqs.Pairwise (· < ·))
    (least : ∀ seq ∈ seqs, expected ≤ seq) :
    expected ≤ firstMissing expected seqs ∧ firstMissing expected seqs ∉ seqs ∧
      ∀ seq, expected ≤ seq → seq < firstMissing expected seqs → seq ∈ seqs := by
  induction seqs generalizing expected with
  | nil =>
    rw [firstMissing]
    refine ⟨le_refl _, List.not_mem_nil, ?_⟩
    intro seq above below
    omega
  | cons first rest ih =>
    obtain ⟨beyond, restAscending⟩ := List.pairwise_cons.mp ascending
    rw [firstMissing]
    by_cases different : first ≠ expected
    · rw [if_pos different]
      refine ⟨le_refl _, ?_, ?_⟩
      · intro member
        rcases List.mem_cons.mp member with same | later
        · exact different same.symm
        · have isLeast := least first List.mem_cons_self
          have above := beyond expected later
          omega
      · intro seq above below
        omega
    rw [if_neg different]
    rw [not_not] at different
    subst different
    have later : ∀ seq ∈ rest, first + 1 ≤ seq := fun seq member => beyond seq member
    obtain ⟨lower, notMember, filled⟩ := ih restAscending later
    refine ⟨by omega, ?_, ?_⟩
    · intro member
      rcases List.mem_cons.mp member with same | later
      · omega
      · exact notMember later
    · intro seq above below
      rcases Nat.eq_or_lt_of_le above with same | later
      · exact same ▸ List.mem_cons_self
      · exact List.mem_cons_of_mem _ (filled seq later below)

/-- How many sequences an ascending list leaves out. -/
theorem card_absent (ascending : seqs.Pairwise (· < ·)) (least : ∀ seq ∈ seqs, first ≤ seq)
    (below : ∀ seq ∈ seqs, seq < stop) :
    (absent first stop seqs).card = stop - first - seqs.length := by
  have distinct : seqs.Nodup := ascending.imp ne_of_lt
  have same : absent first stop seqs = Finset.Ico first stop \ seqs.toFinset := by
    ext seq
    simp only [absent, Finset.mem_filter, Finset.mem_sdiff, List.mem_toFinset]
  have subset : seqs.toFinset ⊆ Finset.Ico first stop := by
    intro seq member
    rw [List.mem_toFinset] at member
    exact Finset.mem_Ico.mpr ⟨least seq member, below seq member⟩
  rw [same, Finset.card_sdiff_of_subset subset, Nat.card_Ico, List.toFinset_card_of_nodup distinct]

/-- The pending sequences from the cursor to the target. -/
theorem mem_waiting :
    seq ∈ (session.pending.keys.filter fun seq =>
      session.lastPublishedSeq + 1 ≤ seq && seq ≤ targetSeq) ↔
      (session.pending.get seq).isSome = true ∧ session.lastPublishedSeq < seq ∧
        seq ≤ targetSeq := by
  rw [List.mem_filter, OrderedMap.mem_keys_iff]
  simp

/-- With one sequence missing, the first missing sequence is that one. -/
theorem firstMissing_alone
    (alone : targetSeq - session.lastPublishedSeq - (session.pending.keys.filter fun seq =>
      session.lastPublishedSeq + 1 ≤ seq && seq ≤ targetSeq).length = 1)
    (isSeq : seq = firstMissing (session.lastPublishedSeq + 1) (session.pending.keys.filter
      fun seq => session.lastPublishedSeq + 1 ≤ seq && seq ≤ targetSeq)) :
    session.lastPublishedSeq < seq ∧ seq ≤ targetSeq ∧ session.pending.get seq = none ∧
      ∀ other, session.lastPublishedSeq < other → other ≤ targetSeq → other ≠ seq →
        (session.pending.get other).isSome = true := by
  generalize isWaiting : (session.pending.keys.filter fun seq =>
    session.lastPublishedSeq + 1 ≤ seq && seq ≤ targetSeq) = waiting at alone isSeq
  have inside : ∀ seq, seq ∈ waiting ↔ (session.pending.get seq).isSome = true ∧
      session.lastPublishedSeq < seq ∧ seq ≤ targetSeq := by
    intro other
    rw [← isWaiting]
    exact mem_waiting
  have ascending : waiting.Pairwise (· < ·) := by
    rw [← isWaiting]
    exact session.pending.sorted.filter _
  have least : ∀ seq ∈ waiting, session.lastPublishedSeq + 1 ≤ seq :=
    fun other member => ((inside other).mp member).2.1
  have below : ∀ seq ∈ waiting, seq < targetSeq + 1 :=
    fun other member => Nat.lt_succ_of_le ((inside other).mp member).2.2
  obtain ⟨lower, notMember, filled⟩ := firstMissing_spec ascending least
  rw [← isSeq] at lower notMember filled
  have count := card_absent ascending least below
  have single : (absent (session.lastPublishedSeq + 1) (targetSeq + 1) waiting).card = 1 := by
    omega
  obtain ⟨only, isOnly⟩ := Finset.card_eq_one.mp single
  have absentIff : ∀ other, (session.lastPublishedSeq + 1 ≤ other ∧ other < targetSeq + 1) ∧
      other ∉ waiting ↔ other = only := by
    intro other
    rw [← Finset.mem_singleton, ← isOnly, absent, Finset.mem_filter, Finset.mem_Ico]
  have onlyFacts := (absentIff only).mpr rfl
  have upper : seq ≤ targetSeq := by
    by_contra beyond
    exact onlyFacts.2 (filled only onlyFacts.1.1 (by omega))
  have same := (absentIff seq).mp ⟨⟨lower, Nat.lt_succ_of_le upper⟩, notMember⟩
  refine ⟨lower, upper, ?_, ?_⟩
  · cases found : session.pending.get seq with
    | none => rfl
    | some event =>
      exact absurd ((inside seq).mpr ⟨by rw [found]; rfl, lower, upper⟩) notMember
  intro other above within different
  by_contra empty
  apply different
  rw [same]
  apply (absentIff other).mp
  refine ⟨⟨above, Nat.lt_succ_of_le within⟩, ?_⟩
  intro member
  exact empty ((inside other).mp member).1

/-- An insertion leaves the cursor and the gap. -/
theorem Faithful.insert (faithful : Faithful contract budget recovery.session)
    (passed : recovery.session.outputGapThrough ≤ recovery.session.lastPublishedSeq)
    (isSeq : event.seq = some seq) (beyond : recovery.session.lastPublishedSeq < seq)
    (genuine : contract.Genuine event) :
    Faithful contract (budget + 1) (recovery.insert event).session ∧
      (recovery.insert event).session.outputGapThrough ≤
        (recovery.insert event).session.lastPublishedSeq := by
  unfold Recovery.insert
  cases inserted : recovery.session.insertPending event with
  | error message => exact ⟨faithful.mono (Nat.le_succ _), passed⟩
  | ok after =>
    refine ⟨faithful.insertPending isSeq beyond genuine inserted, ?_⟩
    rcases insertPending_ok isSeq inserted with ⟨rfl, -⟩ | ⟨-, rfl⟩
    · exact passed
    · exact passed

/-- Publishing, unless the recovery failed. -/
theorem Faithful.thenPublish (faithful : Faithful contract budget recovery.session)
    (passed : recovery.session.outputGapThrough ≤ recovery.session.lastPublishedSeq) :
    Faithful contract budget (recovery.andThen Recovery.publish).session ∧
      (recovery.andThen Recovery.publish).session.outputGapThrough ≤
        (recovery.andThen Recovery.publish).session.lastPublishedSeq := by
  unfold Recovery.andThen
  split
  · exact ⟨faithful, passed⟩
  refine ⟨faithful.publishReady passed, ?_⟩
  obtain ⟨new, published, -, -⟩ := publishReady_spec faithful.waiting
  have le := published.tiles.le
  change recovery.session.publishReady.1.outputGapThrough ≤
    recovery.session.publishReady.1.lastPublishedSeq
  rw [published.outputGapThrough]
  omega

/-- The close and an exit after all chunks. -/
theorem Recovering.finish (recovering : Recovering contract response targetSeq budget recovery)
    (closeGenuine : response.closed = true →
      contract.Genuine (.closed targetSeq (some response.sandboxDenied)))
    (exitGenuine : ∀ (session : SessionState) (more seq : Nat) (exitCode : Int),
      Faithful contract more session → session.exitPublished = false →
      (∀ other event, session.pending.get other = some event → isExited event = false) →
      session.lastPublishedSeq < seq → seq ≤ targetSeq → session.pending.get seq = none →
      (∀ other, session.lastPublishedSeq < other → other ≤ targetSeq → other ≠ seq →
        (session.pending.get other).isSome = true) →
      response.exited = true → response.exitCode = some exitCode →
      contract.Genuine (.exited seq exitCode (recoveredDenial response))) :
    Faithful contract (budget + 2) (finishRecovery response targetSeq recovery).session ∧
      (finishRecovery response targetSeq recovery).session.outputGapThrough ≤
        (finishRecovery response targetSeq recovery).session.lastPublishedSeq := by
  unfold finishRecovery
  generalize isClosing : (if (response.closed && !recovery.session.closedPublished &&
      !((recovery.session.pending.get targetSeq).any isClosed)) = true then
    recovery.insert (.closed targetSeq (some response.sandboxDenied))
  else recovery) = closing
  have current : Recovering contract response targetSeq (budget + 1) closing := by
    rw [← isClosing]
    split
    · next closes =>
      simp only [Bool.and_eq_true, Bool.not_eq_true'] at closes
      apply recovering.insert rfl ?_ (closeGenuine closes.1.1) (.inr rfl) (fun _ _ => rfl)
      rcases recovering.closing closes.1.1 with already | ⟨below, -⟩
      · rw [closes.1.2] at already
        cases already
      · exact below
    · exact recovering.mono (Nat.le_succ _)
  clear isClosing recovering
  unfold Recovery.andThen
  by_cases failed : closing.error.isSome = true
  · rw [if_pos failed]
    exact ⟨current.faithful.mono (Nat.le_succ _), current.passed⟩
  rw [if_neg failed]
  have unfailed : closing.error = none := by simpa using failed
  have same := current.faithful.mono (Nat.le_succ _)
  by_cases unknown : (response.exited && !closing.exitKnown) = true
  · simp only [if_pos unknown]
    simp only [Bool.and_eq_true, Bool.not_eq_true'] at unknown
    obtain ⟨unpublished, noExit⟩ := current.unknown unknown.1 unknown.2 unfailed
    split
    · exact @Faithful.thenPublish _ _ (closing.fail _) same current.passed
    next alone =>
    rw [ne_eq, not_not] at alone
    obtain ⟨above, below, missing, others⟩ := firstMissing_alone alone rfl
    unfold SessionState.insertExit
    cases isCode : response.exitCode with
    | none => exact @Faithful.thenPublish _ _ (closing.fail _) same current.passed
    | some exitCode =>
      have genuine := exitGenuine closing.session _ _ exitCode current.faithful unpublished
        noExit above below missing others unknown.1 isCode
      obtain ⟨inserted, passed⟩ := current.faithful.insert current.passed rfl above genuine
      exact inserted.thenPublish passed
  · simp only [if_neg unknown]
    split
    · exact @Faithful.thenPublish _ _ (closing.fail _) same current.passed
    · have next := same.thenPublish current.passed
      rwa [Recovery.andThen, if_neg failed] at next

/-- What a response must say for the contract: its chunks and its close are genuine, a read does
    not spoil a waiting event, and its exit is genuine at every place or has a kept place of its
    own. -/
structure Answers (contract : Contract) (response : ReadResponse) (targetSeq : Nat) : Prop where
  output : ∀ chunk ∈ response.chunks, chunk.seq ≤ targetSeq → contract.Genuine (.output chunk)
  close : response.closed = true →
    contract.Genuine (.closed targetSeq (some response.sandboxDenied))
  assess : ∀ event, contract.Genuine event → contract.Genuine (assessExit response event)
  exits : response.exited = true → ∀ event seq, contract.Genuine event → isExited event = true →
    event.seq = some seq → seq ≤ targetSeq
  exit : response.exited = true → contract.exitKnown = false →
    ∀ exitCode, response.exitCode = some exitCode →
      (∀ seq, seq ≤ targetSeq →
        contract.Genuine (.exited seq exitCode (recoveredDenial response))) ∨
      ∃ seq, contract.start < seq ∧ seq ≤ targetSeq ∧ contract.Kept seq ∧
        contract.Genuine (.exited seq exitCode (recoveredDenial response)) ∧
        ∀ event, contract.Genuine event → event.seq = some seq → isExited event = true

/-- The cursor has not reached the place of an exit that is not published. -/
theorem Faithful.lt_exit (faithful : Faithful contract budget session)
    (unpublished : session.exitPublished = false) (above : contract.start < seq)
    (kept : contract.Kept seq)
    (only : ∀ event, contract.Genuine event → event.seq = some seq → isExited event = true) :
    session.lastPublishedSeq < seq := by
  by_contra passed
  obtain ⟨event, member, isSeq, notGap⟩ :=
    faithful.published_of_kept kept above (not_lt.mp passed)
  have isExit := only event (faithful.publishedGenuine event member notGap) isSeq
  rw [faithful.exits, Bool.or_eq_false_iff, List.any_eq_false] at unpublished
  exact unpublished.2 event member isExit

/-- An exit at the one sequence that nothing takes is genuine. -/
theorem Answers.exit_alone (answers : Answers contract response targetSeq)
    (faithful : Faithful contract budget session) (unpublished : session.exitPublished = false)
    {Taken : Nat → Prop} (untaken : ∀ seq, seq ≤ targetSeq →
      (∀ event, contract.Genuine event → event.seq = some seq → isExited event = true) →
      ¬ Taken seq) (below : seq ≤ targetSeq)
    (others : ∀ other, session.lastPublishedSeq < other → other ≤ targetSeq → other ≠ seq →
      Taken other) (exited : response.exited = true) {exitCode : Int}
    (isCode : response.exitCode = some exitCode) :
    contract.Genuine (.exited seq exitCode (recoveredDenial response)) := by
  have unknown : contract.exitKnown = false := by
    have flags := faithful.exits
    rw [unpublished] at flags
    exact (Bool.or_eq_false_iff.mp flags.symm).1
  rcases answers.exit exited unknown exitCode isCode with anywhere | ⟨own, above, inside, kept,
    genuine, only⟩
  · exact anywhere seq below
  · by_cases same : own = seq
    · exact same ▸ genuine
    · have beyond := faithful.lt_exit unpublished above kept only
      exact absurd (others own beyond inside same) (untaken own inside only)

theorem pairwise_of_ordered {chunks : List ProcessOutputChunk}
    (ordered : unordered chunks = false) :
    (chunks.map ProcessOutputChunk.seq).Pairwise (· < ·) := by
  rw [← List.isChain_iff_pairwise]
  induction chunks with
  | nil => exact List.IsChain.nil
  | cons first rest ih =>
    cases rest with
    | nil => exact List.IsChain.singleton _
    | cons second rest =>
      simp only [unordered, List.tail_cons, List.zip_cons_cons, List.any_cons,
        Bool.or_eq_false_iff, decide_eq_false_iff_not, not_le] at ordered
      apply List.IsChain.cons_cons ordered.1
      exact ih ordered.2

/-- The sequences that the read brings, from the first on. -/
def recoveredSeqs (first targetSeq : Nat) (response : ReadResponse) : List Nat :=
  ((response.chunks.map ProcessOutputChunk.seq).filter fun seq => first ≤ seq) ++
    if response.closed then [targetSeq] else []

/-- The sequences that wait, from the cursor to the target. -/
def pendingSeqs (session : SessionState) (targetSeq : Nat) : List Nat :=
  session.pending.keys.filter fun seq => session.lastPublishedSeq + 1 ≤ seq && seq ≤ targetSeq

theorem mem_recoveredSeqs :
    seq ∈ recoveredSeqs first targetSeq response ↔
      (first ≤ seq ∧ ∃ chunk ∈ response.chunks, chunk.seq = seq) ∨
        (response.closed = true ∧ seq = targetSeq) := by
  rw [recoveredSeqs, List.mem_append, List.mem_filter, List.mem_map, decide_eq_true_eq, and_comm]
  refine or_congr Iff.rfl ?_
  by_cases closed : response.closed = true
  · simp [closed]
  · simp [closed]

/-- The scan of an ordered read. -/
theorem scan_recovered (below : session.lastPublishedSeq < targetSeq)
    (ordered : unordered response.chunks = false)
    (inside : ∀ chunk ∈ response.chunks, chunk.seq ≤ targetSeq) :
    (scanMissing (session.lastPublishedSeq + 1) targetSeq
        (recoveredSeqs (session.lastPublishedSeq + 1) targetSeq response)
        (session.pendingSeqs targetSeq)).missing =
        (absent (session.lastPublishedSeq + 1) (targetSeq + 1)
          (recoveredSeqs (session.lastPublishedSeq + 1) targetSeq response ++
            session.pendingSeqs targetSeq)).card ∧
      ∀ seq, absent (session.lastPublishedSeq + 1) (targetSeq + 1)
          (recoveredSeqs (session.lastPublishedSeq + 1) targetSeq response ++
            session.pendingSeqs targetSeq) = {seq} →
        (scanMissing (session.lastPublishedSeq + 1) targetSeq
          (recoveredSeqs (session.lastPublishedSeq + 1) targetSeq response)
          (session.pendingSeqs targetSeq)).exitSeq = some seq := by
  have range : ∀ seq ∈ recoveredSeqs (session.lastPublishedSeq + 1) targetSeq response ++
      session.pendingSeqs targetSeq, session.lastPublishedSeq + 1 ≤ seq ∧ seq ≤ targetSeq := by
    intro seq member
    rcases List.mem_append.mp member with recovered | pending
    · rcases mem_recoveredSeqs.mp recovered with ⟨above, chunk, isChunk, rfl⟩ | ⟨-, rfl⟩
      · exact ⟨above, inside chunk isChunk⟩
      · exact ⟨below, le_refl _⟩
    · exact (mem_waiting.mp pending).2
  apply scanMissing_spec
  · rw [recoveredSeqs, List.pairwise_append]
    refine ⟨((pairwise_of_ordered ordered).filter _).imp le_of_lt, ?_, ?_⟩
    · split
      · exact List.pairwise_singleton _ _
      · exact List.Pairwise.nil
    intro seq member other isTarget
    obtain ⟨chunk, isChunk, rfl⟩ := List.mem_map.mp (List.mem_filter.mp member).1
    split at isTarget
    · rw [List.mem_singleton.mp isTarget]
      exact inside chunk isChunk
    · cases isTarget
  · exact (session.pending.sorted.filter _).imp le_of_lt
  · exact fun seq member => (range seq member).1
  · exact fun seq member => (range seq member).2
  · omega

/-- The sequence that an exit is inferred at is the only one that nothing takes. -/
theorem inferExit_spec {exitKnown : Bool} (below : session.lastPublishedSeq < targetSeq)
    (inferred : session.inferExit response targetSeq exitKnown = .ok (some seq)) :
    response.exited = true ∧ exitKnown = false ∧ seq ≤ targetSeq ∧
      ∀ other, session.lastPublishedSeq < other → other ≤ targetSeq → other ≠ seq →
        (∃ chunk ∈ response.chunks, chunk.seq = other) ∨
        (response.closed = true ∧ other = targetSeq) ∨
        (session.pending.get other).isSome = true := by
  unfold inferExit at inferred
  split at inferred
  · next unknown =>
    simp only [Bool.and_eq_true, Bool.not_eq_true'] at unknown
    split at inferred
    · cases inferred
    next fits =>
    simp only [Bool.or_eq_true, not_or, Bool.not_eq_true, List.any_eq_false,
      decide_eq_true_eq, not_lt] at fits
    have scan := @scan_recovered response targetSeq session below fits.1 fits.2
    dsimp only at inferred
    rw [← recoveredSeqs, ← pendingSeqs] at inferred
    split at inferred
    · cases inferred
    next alone =>
    rw [ne_eq, not_not, scan.1] at alone
    obtain ⟨only, isOnly⟩ := Finset.card_eq_one.mp alone
    rw [scan.2 only isOnly] at inferred
    simp only [Except.ok.injEq, Option.some.injEq] at inferred
    subst inferred
    have absentIff : ∀ other, other ∈ absent (session.lastPublishedSeq + 1) (targetSeq + 1)
        (recoveredSeqs (session.lastPublishedSeq + 1) targetSeq response ++
          session.pendingSeqs targetSeq) ↔ other = only := by
      intro other
      rw [isOnly, Finset.mem_singleton]
    simp only [absent, Finset.mem_filter, Finset.mem_Ico] at absentIff
    have facts := (absentIff only).mpr rfl
    refine ⟨unknown.1, unknown.2, by omega, ?_⟩
    intro other above within different
    by_contra untaken
    apply different
    apply (absentIff other).mp
    refine ⟨⟨above, Nat.lt_succ_of_le within⟩, ?_⟩
    intro member
    rcases List.mem_append.mp member with recovered | pending
    · rcases mem_recoveredSeqs.mp recovered with ⟨-, held⟩ | isClose
      · exact untaken (.inl held)
      · exact untaken (.inr (.inl isClose))
    · exact untaken (.inr (.inr (mem_waiting.mp pending).1))
  · cases inferred

@[simp] theorem seq_assessExit (response : ReadResponse) (event : ExecProcessEvent) :
    (assessExit response event).seq = event.seq := by
  cases event <;> rfl

/-- The session after the waiting exit took the assessment of a read. -/
theorem Faithful.assess (faithful : Faithful contract budget session)
    (answers : Answers contract response targetSeq) (found : session.pending.get seq = some event) :
    Faithful contract budget
      { session with pending := session.pending.insert seq (assessExit response event) } := by
  refine ⟨?_, faithful.tiles, faithful.limited, ?_, faithful.publishedGenuine, faithful.kept,
    faithful.exits, faithful.closes, ?_⟩
  · intro other waiting isOther
    dsimp only at isOther
    rw [OrderedMap.get_insert] at isOther
    split at isOther
    · next same =>
      cases isOther
      rw [seq_assessExit, same]
      exact faithful.waiting seq event found
    · exact faithful.waiting other waiting isOther
  · intro other waiting isOther
    dsimp only at isOther
    rw [OrderedMap.get_insert] at isOther
    split at isOther
    · cases isOther
      exact answers.assess event (faithful.pendingGenuine seq event found)
    · exact faithful.pendingGenuine other waiting isOther
  · dsimp only
    rw [OrderedMap.length_insert_of_get found]
    exact faithful.count

/-- The session that `recover_events` works on, with whether the exit is known. -/
def assessed (session : SessionState) (response : ReadResponse) (targetSeq : Nat) : SessionState :=
  (session.pendingExit targetSeq).elim session fun entry =>
    { session with pending := session.pending.insert entry.1 (assessExit response entry.2) }

theorem pendingExit_some {entry : Nat × ExecProcessEvent}
    (isExit : session.pendingExit targetSeq = some entry) :
    session.pending.get entry.1 = some entry.2 ∧ entry.1 ≤ targetSeq ∧ isExited entry.2 = true := by
  have holds := List.find?_some isExit
  simp only [Bool.and_eq_true, decide_eq_true_eq] at holds
  exact ⟨OrderedMap.get_eq_some_iff.mpr (List.mem_of_find?_eq_some isExit), holds.1, holds.2⟩

theorem pendingExit_none (noExit : session.pendingExit targetSeq = none)
    (found : session.pending.get seq = some event)
    (inside : seq ≤ targetSeq) : isExited event = false := by
  have holds := List.find?_eq_none.mp noExit (seq, event) (OrderedMap.get_eq_some_iff.mp found)
  simpa [inside] using holds

/-- A recovery without a gap keeps the contract. -/
theorem Faithful.recoverThrough (faithful : Faithful contract budget session)
    (passed : session.outputGapThrough ≤ session.lastPublishedSeq)
    (below : session.lastPublishedSeq < targetSeq) (answers : Answers contract response targetSeq) :
    Faithful contract (budget + 2 * response.chunks.length + 2)
        (session.recoverThrough response targetSeq).2 ∧
      (session.recoverThrough response targetSeq).2.outputGapThrough ≤
        (session.recoverThrough response targetSeq).2.lastPublishedSeq := by
  unfold SessionState.recoverThrough
  dsimp only
  rw [← assessed]
  have samePublished : (session.assessed response targetSeq).exitPublished =
      session.exitPublished := by
    unfold assessed
    cases session.pendingExit targetSeq <;> rfl
  have current : Faithful contract budget (session.assessed response targetSeq) ∧
      (session.assessed response targetSeq).outputGapThrough ≤
        (session.assessed response targetSeq).lastPublishedSeq ∧
      (session.assessed response targetSeq).lastPublishedSeq < targetSeq := by
    unfold assessed
    cases isExit : session.pendingExit targetSeq with
    | none => exact ⟨faithful, passed, below⟩
    | some entry => exact ⟨faithful.assess answers (pendingExit_some isExit).1, passed, below⟩
  -- While the exit is unknown, none waits, also past the target.
  have unknown : response.exited = true →
      ((session.assessed response targetSeq).exitPublished ||
        (session.pendingExit targetSeq).isSome) = false →
      (session.assessed response targetSeq).exitPublished = false ∧
      ∀ seq event, (session.assessed response targetSeq).pending.get seq = some event →
        isExited event = false := by
    intro exited notKnown
    rw [Bool.or_eq_false_iff] at notKnown
    have noExit : session.pendingExit targetSeq = none := by simpa using notKnown.2
    refine ⟨notKnown.1, ?_⟩
    intro seq event found
    have same : session.assessed response targetSeq = session := by rw [assessed, noExit]; rfl
    rw [same] at found
    by_contra isExit
    rw [Bool.not_eq_false] at isExit
    have inside := answers.exits exited event seq (faithful.pendingGenuine seq event found) isExit
      (faithful.waiting seq event found).1
    rw [pendingExit_none noExit found inside] at isExit
    cases isExit
  generalize session.assessed response targetSeq = start at current unknown
  generalize (start.exitPublished || (session.pendingExit targetSeq).isSome) = exitKnown at unknown
  obtain ⟨faithful, passed, below⟩ := current
  clear samePublished
  split
  · exact ⟨faithful.mono (by omega), passed⟩
  next fits =>
  rw [Bool.not_eq_true] at fits
  simp only [closeConflict, Bool.and_eq_false_iff, Bool.or_eq_false_iff] at fits
  have notClose : ∀ chunk ∈ response.chunks, response.closed = true → chunk.seq ≠ targetSeq := by
    intro chunk member closed
    rcases fits with isOpen | ⟨-, apart⟩
    · rw [closed] at isOpen
      cases isOpen
    · simpa using List.any_eq_false.mp apart chunk member
  cases inference : start.inferExit response targetSeq exitKnown with
  | error message => exact ⟨faithful.mono (by omega), passed⟩
  | ok inferredExit =>
    have recovering : Recovering contract response targetSeq budget
        ⟨start, exitKnown, false, none⟩ := by
      refine ⟨faithful, passed, fun exited notKnown _ => unknown exited notKnown, ?_⟩
      intro closed
      refine .inr ⟨below, ?_⟩
      intro event found
      rcases fits with isOpen | ⟨apart, -⟩
      · rw [closed] at isOpen
        cases isOpen
      · dsimp only at found
        rw [found] at apart
        simpa using apart
    have chunks : Recovering contract response targetSeq (budget + 2 * response.chunks.length)
        (recoverChunks response targetSeq inferredExit response.chunks
          ⟨start, exitKnown, false, none⟩) := by
      apply recovering.chunks answers.output notClose
      intro seq exitCode isInferred isCode
      rw [isInferred] at inference
      obtain ⟨exited, notKnown, inside, others⟩ := inferExit_spec below inference
      obtain ⟨unpublished, noExit⟩ := unknown exited notKnown
      apply answers.exit_alone faithful unpublished ?_ inside others exited isCode
      rintro own within only (⟨chunk, member, rfl⟩ | ⟨closed, rfl⟩ | waiting)
      · exact Bool.false_ne_true (only _ (answers.output chunk member within) rfl)
      · exact Bool.false_ne_true (only _ (answers.close closed) rfl)
      · obtain ⟨event, found⟩ := Option.isSome_iff_exists.mp waiting
        have isExit := only event (faithful.pendingGenuine own event found)
          (faithful.waiting own event found).1
        rw [noExit own event found] at isExit
        cases isExit
    dsimp only [Recovery.result, Recovery.andThen]
    split
    · exact ⟨chunks.faithful.mono (by omega), chunks.passed⟩
    apply chunks.finish answers.close
    intro session more seq exitCode faithful unpublished noExit above inside missing others
      exited isCode
    apply answers.exit_alone faithful unpublished ?_ inside others exited isCode
    intro own within only waiting
    obtain ⟨event, found⟩ := Option.isSome_iff_exists.mp waiting
    have isExit := only event (faithful.pendingGenuine own event found)
      (faithful.waiting own event found).1
    rw [noExit own event found] at isExit
    cases isExit

end

/-! ## Recovery over a gap -/

/-- A merge under way: what waits lies past the target, and the kept sequences up to the target are
    still to come. -/
structure Merging (contract : Contract) (targetSeq budget : Nat) (seqs : List Nat)
    (recovery : Recovery) : Prop where
  faithful : Faithful contract budget recovery.session
  passed : recovery.session.outputGapThrough ≤ recovery.session.lastPublishedSeq
  above : recovery.error = none →
    ∀ seq event, recovery.session.pending.get seq = some event → targetSeq < seq
  kept : recovery.error = none → ∀ seq, contract.Kept seq →
    recovery.session.lastPublishedSeq < seq → seq ≤ targetSeq → seq ∈ seqs

section

variable {contract : Contract} {targetSeq budget : Nat} {recovery : Recovery}

theorem Merging.mono (merging : Merging contract targetSeq budget seqs recovery) {more : Nat}
    (le : budget ≤ more) : Merging contract targetSeq more seqs recovery :=
  { merging with faithful := merging.faithful.mono le }

/-- A failed merge has nothing to come. -/
theorem Merging.failed {others : List Nat}
    (merging : Merging contract targetSeq budget seqs recovery)
    (failed : recovery.error.isSome = true) : Merging contract targetSeq budget others recovery := by
  refine ⟨merging.faithful, merging.passed, ?_, ?_⟩
  · intro unfailed
    rw [unfailed] at failed
    cases failed
  · intro unfailed
    rw [unfailed] at failed
    cases failed

variable {event : ExecProcessEvent}

/-- The publication of the next event leaves what waited past it. -/
theorem publishReady_next {session after : SessionState} (waiting : after.Waiting)
    (isSeq : event.seq = some seq) (isNext : seq = session.lastPublishedSeq + 1)
    (inserted : session.insertPending event = .ok after) :
    seq ≤ after.publishReady.1.lastPublishedSeq ∧
      ∀ other pending, after.publishReady.1.pending.get other = some pending →
        session.pending.get other = some pending := by
  obtain ⟨new, published, -, -⟩ := publishReady_spec waiting
  rcases insertPending_ok isSeq inserted with ⟨rfl, present⟩ | ⟨missing, rfl⟩
  · obtain ⟨found, isFound⟩ := Option.isSome_iff_exists.mp present
    rw [isNext] at isFound
    have moved := lt_publishReady waiting isFound
    refine ⟨by omega, ?_⟩
    intro other pending isPending
    exact (published.rest other pending isPending).1
  have ready : (session.pending.insert seq event).get (session.lastPublishedSeq + 1) =
      some event := by rw [OrderedMap.get_insert, if_pos isNext.symm]
  have moved := lt_publishReady waiting ready
  dsimp only at moved
  refine ⟨by omega, ?_⟩
  intro other pending isPending
  obtain ⟨found, beyond⟩ := published.rest other pending isPending
  dsimp only at found
  rwa [OrderedMap.get_insert, if_neg (by omega)] at found

/-- The insertion of the next event and its publication. -/
theorem Merging.insertNext (merging : Merging contract targetSeq budget (seq :: seqs) recovery)
    (unfailed : recovery.error = none) (isSeq : event.seq = some seq)
    (isNext : seq = recovery.session.lastPublishedSeq + 1) (genuine : contract.Genuine event) :
    Merging contract targetSeq (budget + 1) seqs
      ((recovery.insert event).andThen Recovery.publish) := by
  have beyond : recovery.session.lastPublishedSeq < seq := by omega
  obtain ⟨next, passed⟩ := merging.faithful.insert merging.passed isSeq beyond genuine
  obtain ⟨published, stillPassed⟩ := next.thenPublish passed
  cases inserted : recovery.session.insertPending event with
  | error message =>
    have failed : recovery.insert event = recovery.fail message := by
      rw [Recovery.insert, inserted]
    rw [failed] at published stillPassed ⊢
    refine ⟨published, stillPassed, ?_, ?_⟩
    · intro absurd
      cases absurd
    · intro absurd
      cases absurd
  | ok after =>
    have isAfter : recovery.insert event = { recovery with session := after } := by
      rw [Recovery.insert, inserted]
    rw [isAfter] at next published stillPassed ⊢
    have result : (Recovery.andThen { recovery with session := after } Recovery.publish) =
        Recovery.publish { recovery with session := after } := by
      rw [Recovery.andThen, if_neg]
      rw [unfailed]
      exact Bool.false_ne_true
    rw [result] at published stillPassed ⊢
    obtain ⟨reached, rest⟩ := publishReady_next next.waiting isSeq isNext inserted
    dsimp only at reached
    refine ⟨published, stillPassed, ?_, ?_⟩
    · intro _ other pending found
      exact merging.above unfailed other pending (rest other pending found)
    intro _ other isKept later inside
    change after.publishReady.1.lastPublishedSeq < other at later
    rcases List.mem_cons.mp (merging.kept unfailed other isKept (by omega) inside) with
      same | member
    · omega
    · exact member

/-- One merged event. -/
theorem Merging.merged (merging : Merging contract targetSeq budget (seq :: seqs) recovery)
    (unfailed : recovery.error = none) (isSeq : event.seq = some seq) (inside : seq ≤ targetSeq)
    (genuine : contract.Genuine event) (ascending : ∀ other ∈ seqs, seq < other) :
    Merging contract targetSeq (budget + 2) seqs (recoverMerged (seq, event) recovery) := by
  unfold recoverMerged
  dsimp only
  by_cases known : seq ≤ recovery.session.lastPublishedSeq
  · rw [if_pos known]
    refine ⟨merging.faithful.mono (by omega), merging.passed, merging.above, ?_⟩
    intro _ other isKept later within
    rcases List.mem_cons.mp (merging.kept unfailed other isKept later within) with same | member
    · omega
    · exact member
  rw [if_neg known]
  by_cases hole : seq > recovery.session.lastPublishedSeq + 1
  · rw [if_pos hole]
    have above := merging.above unfailed
    have bounded := contract.bounded event seq genuine isSeq
    have skipped : Merging contract targetSeq (budget + 1) (seq :: seqs)
        { recovery with session := recovery.session.skipTo (seq - 1) } := by
      refine ⟨?_, ?_, merging.above, ?_⟩
      · apply merging.faithful.skipTo (by omega) (by omega)
        · intro other pending found
          have later := above other pending found
          omega
        intro other isKept later within
        rcases List.mem_cons.mp
          (merging.kept unfailed other isKept later (by omega)) with same | member
        · omega
        · have less := ascending other member
          omega
      · have passed := merging.passed
        change recovery.session.outputGapThrough ≤ seq - 1
        omega
      · intro _ other isKept later within
        change seq - 1 < other at later
        exact merging.kept unfailed other isKept (by omega) within
    apply skipped.insertNext unfailed isSeq ?_ genuine
    change seq = seq - 1 + 1
    omega
  · rw [if_neg hole]
    apply (merging.insertNext unfailed isSeq (by omega) genuine).mono
    omega

theorem Merging.all {entries : List (Nat × ExecProcessEvent)}
    (merging : Merging contract targetSeq budget (entries.map Prod.fst) recovery)
    (unfailed : recovery.error = none)
    (own : ∀ entry ∈ entries, entry.2.seq = some entry.1 ∧ entry.1 ≤ targetSeq ∧
      contract.Genuine entry.2)
    (ascending : (entries.map Prod.fst).Pairwise (· < ·)) :
    Merging contract targetSeq (budget + 2 * entries.length) []
      (recoverAllMerged entries recovery) := by
  induction entries generalizing recovery budget with
  | nil => exact merging
  | cons entry entries ih =>
    obtain ⟨less, restAscending⟩ := List.pairwise_cons.mp ascending
    obtain ⟨isSeq, inside, genuine⟩ := own entry List.mem_cons_self
    have first := merging.merged unfailed isSeq inside genuine less
    rw [recoverAllMerged, List.length_cons, Recovery.andThen]
    split
    · next failed => exact (first.mono (by omega)).failed failed
    · next more =>
      have rest := ih first (by simpa using more)
        (fun other member => own other (List.mem_cons_of_mem _ member)) restAscending
      exact rest.mono (by omega)

/-- The end of the gap. -/
theorem Merging.finish (merging : Merging contract targetSeq budget [] recovery)
    (unfailed : recovery.error = none) (limited : targetSeq ≤ contract.limit) :
    Faithful contract (budget + 1) (finishGap targetSeq recovery).session ∧
      (finishGap targetSeq recovery).session.outputGapThrough ≤
        (finishGap targetSeq recovery).session.lastPublishedSeq := by
  have ready : ∀ (other : Recovery) {spent : Nat}, other.error = none →
      Faithful contract spent other.session →
      other.session.outputGapThrough ≤ other.session.lastPublishedSeq →
      Faithful contract spent other.publish.session ∧
        other.publish.session.outputGapThrough ≤ other.publish.session.lastPublishedSeq := by
    intro other spent noError faithful passed
    have next := faithful.thenPublish passed
    rwa [Recovery.andThen, if_neg (by rw [noError]; exact Bool.false_ne_true)] at next
  unfold finishGap
  by_cases short : recovery.session.lastPublishedSeq < targetSeq
  · simp only [if_pos short]
    apply ready { recovery with session := recovery.session.skipTo targetSeq } unfailed
    · apply merging.faithful.skipTo short limited (merging.above unfailed)
      intro seq isKept later within
      cases merging.kept unfailed seq isKept later within
    · have passed := merging.passed
      change recovery.session.outputGapThrough ≤ targetSeq
      omega
  · simp only [if_neg short]
    exact ready _ unfailed (merging.faithful.mono (Nat.le_succ _)) merging.passed

end

/-! ### The merged events -/

theorem get_mergeAll {entries : List (Nat × ExecProcessEvent)}
    {map : OrderedMap Nat ExecProcessEvent} {event : ExecProcessEvent}
    (found : (entries.foldl (fun map entry =>
      if (map.get entry.1).isSome then map else map.insert entry.1 entry.2) map).get seq =
      some event) : map.get seq = some event ∨ (seq, event) ∈ entries := by
  induction entries generalizing map with
  | nil => exact .inl found
  | cons entry entries ih =>
    rcases ih found with old | member
    · dsimp only at old
      split at old
      · exact .inl old
      rw [OrderedMap.get_insert] at old
      split at old
      · next same =>
        cases old
        exact .inr (same ▸ List.mem_cons_self)
      · exact .inl old
    · exact .inr (List.mem_cons_of_mem _ member)

theorem isSome_mergeAll {entries : List (Nat × ExecProcessEvent)}
    {map : OrderedMap Nat ExecProcessEvent}
    (held : (map.get seq).isSome = true ∨ seq ∈ entries.map Prod.fst) :
    ((entries.foldl (fun map entry =>
      if (map.get entry.1).isSome then map else map.insert entry.1 entry.2) map).get seq).isSome =
      true := by
  induction entries generalizing map with
  | nil =>
    rcases held with old | member
    · exact old
    · cases member
  | cons entry entries ih =>
    rw [List.foldl_cons]
    apply ih
    split
    · next present =>
      rcases held with old | member
      · exact .inl old
      · rcases List.mem_cons.mp member with same | later
        · exact .inl (same ▸ present)
        · exact .inr later
    rw [OrderedMap.get_insert]
    by_cases same : seq = entry.1
    · rw [if_pos same]
      exact .inl rfl
    rw [if_neg same]
    rcases held with old | member
    · exact .inl old
    · rcases List.mem_cons.mp member with isFirst | later
      · exact absurd isFirst same
      · exact .inr later

theorem length_mergeAll_le (entries : List (Nat × ExecProcessEvent))
    (map : OrderedMap Nat ExecProcessEvent) :
    (entries.foldl (fun map entry =>
      if (map.get entry.1).isSome then map else map.insert entry.1 entry.2) map).length ≤
      map.length + entries.length := by
  induction entries generalizing map with
  | nil => exact le_refl _
  | cons entry entries ih =>
    rw [List.foldl_cons, List.length_cons]
    refine le_trans (ih _) ?_
    split
    · omega
    · have grown := OrderedMap.length_insert_le map entry.1 entry.2
      omega

theorem mergeRecovered_get {session : SessionState} {recovered : List (Nat × ExecProcessEvent)}
    {event : ExecProcessEvent}
    (found : (session.mergeRecovered targetSeq recovered).get seq = some event) :
    (seq, event) ∈ recovered ∨ (session.pending.get seq = some event ∧ seq ≤ targetSeq) := by
  rcases get_mergeAll found with fromRead | waiting
  · exact .inl (OrderedMap.mem_of_get_ofList fromRead)
  · rw [← OrderedMap.get_eq_some_iff, OrderedMap.get_retain] at waiting
    split at waiting
    · next inside => exact .inr ⟨waiting, by simpa using inside⟩
    · cases waiting

theorem mergeRecovered_isSome {session : SessionState} {recovered : List (Nat × ExecProcessEvent)}
    (held : seq ∈ recovered.map Prod.fst ∨
      ((session.pending.get seq).isSome = true ∧ seq ≤ targetSeq)) :
    ((session.mergeRecovered targetSeq recovered).get seq).isSome = true := by
  apply isSome_mergeAll
  rcases held with fromRead | ⟨waiting, inside⟩
  · exact .inl (OrderedMap.isSome_get_ofList fromRead)
  · right
    apply OrderedMap.mem_keys_iff.mpr
    rwa [OrderedMap.get_retain, if_pos (by simpa using inside)]

theorem length_mergeRecovered_le (session : SessionState) (targetSeq : Nat)
    (recovered : List (Nat × ExecProcessEvent)) :
    (session.mergeRecovered targetSeq recovered).length ≤
      recovered.length + session.pending.length := by
  have merged := length_mergeAll_le
    (session.pending.retain fun seq => seq ≤ targetSeq).entries (OrderedMap.ofList recovered)
  have fromRead := OrderedMap.length_ofList_le recovered
  have fewer := List.length_filter_le (fun entry => decide (entry.1 ≤ targetSeq))
    session.pending.entries
  rw [mergeRecovered, OrderedMap.retain, OrderedMap.length]
  simp only [OrderedMap.retain, OrderedMap.length] at merged fromRead ⊢
  omega

section

variable {contract : Contract} {response : ReadResponse} {gap : ProcessOutputGap} {budget : Nat}
  {session : SessionState}

/-- The events past the target are all that waits. -/
theorem Faithful.retain (faithful : Faithful contract budget session) (targetSeq bytes : Nat) :
    Faithful contract
      (session.published.length + (session.pending.retain fun seq => targetSeq < seq).length)
      { session with
        pending := session.pending.retain fun seq => targetSeq < seq
        pendingBytes := bytes } := by
  have found : ∀ {seq : Nat} {event : ExecProcessEvent},
      (session.pending.retain fun seq => targetSeq < seq).get seq = some event →
      session.pending.get seq = some event := by
    intro seq event isEvent
    rw [OrderedMap.get_retain] at isEvent
    split at isEvent
    · exact isEvent
    · cases isEvent
  exact ⟨fun seq event isEvent => faithful.waiting seq event (found isEvent), faithful.tiles,
    faithful.limited, fun seq event isEvent => faithful.pendingGenuine seq event (found isEvent),
    faithful.publishedGenuine, faithful.kept, faithful.exits, faithful.closes, le_refl _⟩

/-- Each recovered event has its own sequence up to the target. -/
theorem recoveredEvents_own {target : Nat} {exitCode : Int}
    (accepted : gapRejected response gap target = false) {entry : Nat × ExecProcessEvent}
    (member : entry ∈ recoveredEvents response gap target exitCode) :
    entry.2.seq = some entry.1 ∧ entry.1 ≤ target := by
  simp only [gapRejected, Bool.or_eq_false_iff] at accepted
  obtain ⟨⟨⟨⟨-, exitInside⟩, -⟩, -⟩, chunkInside⟩ := accepted
  rw [recoveredEvents, List.mem_append, List.mem_append] at member
  rcases member with (isChunk | isExit) | isClose
  · obtain ⟨chunk, inChunks, rfl⟩ := List.mem_map.mp isChunk
    refine ⟨rfl, ?_⟩
    have holds := List.any_eq_false.mp chunkInside chunk inChunks
    simp only [Bool.or_eq_true, decide_eq_true_eq, not_or, not_lt] at holds
    exact holds.1.1
  · rw [Option.mem_toList, Option.map_eq_some_iff] at isExit
    obtain ⟨seq, isSeq, rfl⟩ := isExit
    refine ⟨rfl, ?_⟩
    rw [isSeq] at exitInside
    simp only [Option.any_some, Bool.or_eq_false_iff, decide_eq_false_iff_not, not_lt] at exitInside
    exact exitInside.1.2
  · split at isClose
    · rw [List.mem_singleton.mp isClose]
      exact ⟨rfl, le_refl _⟩
    · cases isClose

/-- A recovery over a declared gap keeps the contract. -/
theorem Faithful.recoverOutputGap (faithful : Faithful contract budget session)
    (passed : session.closedPublished = false →
      session.outputGapThrough ≤ session.lastPublishedSeq)
    (limited : response.nextSeq - 1 ≤ contract.limit)
    (genuine : gapRejected response gap (response.nextSeq - 1) = false →
      ∀ entry ∈ recoveredEvents response gap (response.nextSeq - 1) (response.exitCode.getD 0),
        contract.Genuine entry.2)
    (kept : gapRejected response gap (response.nextSeq - 1) = false →
      ∀ seq, contract.Kept seq → session.lastPublishedSeq < seq → seq ≤ response.nextSeq - 1 →
        (∃ event, (seq, event) ∈ recoveredEvents response gap (response.nextSeq - 1)
          (response.exitCode.getD 0)) ∨ (session.pending.get seq).isSome = true)
    (enough : session.published.length +
      (session.pending.retain fun seq => response.nextSeq - 1 < seq).length +
      2 * (session.mergeRecovered (response.nextSeq - 1) (recoveredEvents response gap
        (response.nextSeq - 1) (response.exitCode.getD 0))).length + 1 ≤ budget) :
    Faithful contract budget (session.recoverOutputGap response gap).2 ∧
      ((session.recoverOutputGap response gap).2.closedPublished = false →
        (session.recoverOutputGap response gap).2.outputGapThrough ≤
          (session.recoverOutputGap response gap).2.lastPublishedSeq) := by
  unfold SessionState.recoverOutputGap
  dsimp only
  generalize isTarget : response.nextSeq - 1 = target at limited genuine kept enough
  by_cases rejected : gapRejected response gap target = true
  · rw [if_pos rejected]
    exact ⟨faithful, passed⟩
  rw [if_neg rejected]
  rw [Bool.not_eq_true] at rejected
  replace genuine := genuine rejected
  replace kept := kept rejected
  by_cases ended : (session.failure.isSome || session.closedPublished) = true
  · rw [if_pos ended]
    exact ⟨faithful, passed⟩
  rw [if_neg ended]
  rw [Bool.not_eq_true, Bool.or_eq_false_iff] at ended
  split
  · exact ⟨faithful, passed⟩
  generalize isMerged : session.mergeRecovered target (recoveredEvents response gap target
    (response.exitCode.getD 0)) = merged at enough
  -- Each merged event has its own sequence up to the target.
  have own : ∀ entry ∈ merged.entries, entry.2.seq = some entry.1 ∧ entry.1 ≤ target ∧
      contract.Genuine entry.2 := by
    intro entry member
    have found := OrderedMap.get_eq_some_iff.mpr member
    rw [← isMerged] at found
    rcases mergeRecovered_get found with fromRead | ⟨waiting, inside⟩
    · have facts := recoveredEvents_own rejected fromRead
      exact ⟨facts.1, facts.2, genuine entry fromRead⟩
    · exact ⟨(faithful.waiting _ _ waiting).1, inside, faithful.pendingGenuine _ _ waiting⟩
  have start : Merging contract target (session.published.length +
      (session.pending.retain fun seq => target < seq).length) (merged.entries.map Prod.fst)
      ⟨{ session with
        pending := session.pending.retain fun seq => target < seq
        pendingBytes := ((session.pending.retain fun seq => target < seq).values.map
          ExecProcessEvent.bytes).sum }, true, false, none⟩ := by
    refine ⟨faithful.retain target _, passed ended.2, ?_, ?_⟩
    · intro _ seq event found
      dsimp only at found
      rw [OrderedMap.get_retain] at found
      split at found
      · next beyond => simpa using beyond
      · cases found
    intro _ seq isKept later inside
    apply OrderedMap.mem_keys_iff.mpr
    rw [← isMerged]
    apply mergeRecovered_isSome
    rcases kept seq isKept later inside with ⟨event, member⟩ | waiting
    · exact .inl (List.mem_map_of_mem member)
    · exact .inr ⟨waiting, inside⟩
  have all := start.all rfl own merged.sorted
  dsimp only [Recovery.result, Recovery.andThen]
  split
  · exact ⟨all.faithful.mono (by
      change _ + 2 * merged.length ≤ _
      omega), fun _ => all.passed⟩
  · next more =>
    obtain ⟨finished, through⟩ := all.finish (by simpa using more) limited
    refine ⟨finished.mono ?_, fun _ => through⟩
    change _ + 2 * merged.length + 1 ≤ _
    omega

end

end Codex.ExecServer.Process.SessionState
