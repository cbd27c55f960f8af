import Codex.Lib.Machine
import Codex.Lib.Run

/-!
# The ordered ciphertext window

`exec-server/src/noise_relay/ordered_ciphertext.rs`. Relay records arrive in any order
and with duplicates; the window releases their payloads in sequence order, once each,
before they reach the implicit receive nonce of Noise. `push` is the source's function;
an error ends the stream that owns the window, so the state after an error is not kept.
-/

namespace Codex.ExecServer

/-- The `ExecServerError` variants (`exec-server/src/client.rs:583`) that the relay
    layer returns. The JSON variant carries the rendered parser error. -/
inductive ExecServerError where
  | closed
  | json (message : String)
  | protocol (message : String)
  deriving DecidableEq, Repr

namespace OrderedCiphertext

open Codex.Machine Codex.Run

abbrev Payload := List UInt8

/-- `CIPHERTEXT_GAP_TIMEOUT`, in milliseconds. -/
def CIPHERTEXT_GAP_TIMEOUT : Nat := 60 * 1000

def MAX_REORDER_DISTANCE : UInt32 := 64

def MAX_PENDING_BYTES : Nat := 1024 * 1024

/-- `OrderedCiphertextFrames`; instants are milliseconds on the monotonic clock. -/
structure OrderedCiphertextFrames where
  nextSeq : UInt32 := 0
  pending : AList (fun _ : UInt32 => Payload) := ∅
  pendingBytes : Nat := 0
  gapDeadline : Option Nat := none

/-- One call of `push`: its arguments and the clock reading of that call. -/
structure Arrival where
  seq : UInt32
  payload : Payload
  now : Nat := 0

def windowExceeded : ExecServerError := .protocol "Noise relay ciphertext exceeds reorder window"

def bufferFull : ExecServerError := .protocol "Noise relay pending ciphertext buffer is full"

def sequenceExhausted : ExecServerError := .protocol "Noise relay sequence number exhausted"

def advance (frames : OrderedCiphertextFrames) :
    Except ExecServerError OrderedCiphertextFrames :=
  match checkedAddU32 frames.nextSeq 1 with
  | none => .error sequenceExhausted
  | some nextSeq => .ok { frames with nextSeq }

/-- The `while let Some(payload) = self.pending.remove(&self.next_seq)` loop. Each round
    removes one pending entry, so the number of entries is enough fuel. -/
def releaseContiguous : Nat → OrderedCiphertextFrames → List Payload →
    Except ExecServerError (List Payload × OrderedCiphertextFrames)
  | 0, frames, ready => .ok (ready, frames)
  | fuel + 1, frames, ready =>
      match frames.pending.lookup frames.nextSeq with
      | none => .ok (ready, frames)
      | some payload =>
          match advance { frames with
              pending := frames.pending.erase frames.nextSeq
              pendingBytes := usizeSub frames.pendingBytes payload.length } with
          | .error error => .error error
          | .ok frames => releaseContiguous fuel frames (ready ++ [payload])

/-- The branch of `push` for a sequence number ahead of the next one, after its checks. -/
def hold (frames : OrderedCiphertextFrames) (arrival : Arrival) : OrderedCiphertextFrames :=
  { frames with
    gapDeadline := some (frames.gapDeadline.getD (arrival.now + CIPHERTEXT_GAP_TIMEOUT))
    pending := frames.pending.insert arrival.seq arrival.payload
    pendingBytes := frames.pendingBytes + arrival.payload.length }

/-- The branch of `push` for the expected record: release it and everything now
    contiguous behind it. -/
def release (frames : OrderedCiphertextFrames) (payload : Payload) :
    Except ExecServerError (List Payload × OrderedCiphertextFrames) :=
  match advance frames with
  | .error error => .error error
  | .ok frames =>
      match releaseContiguous frames.pending.entries.length frames [payload] with
      | .error error => .error error
      | .ok (ready, frames) =>
          .ok (ready, { frames with
            gapDeadline := if frames.pending.entries.isEmpty then none else frames.gapDeadline })

/-- `OrderedCiphertextFrames::push` (`ordered_ciphertext.rs:29`). -/
def push (frames : OrderedCiphertextFrames) (arrival : Arrival) :
    Except ExecServerError (List Payload × OrderedCiphertextFrames) :=
  -- Keep the first ciphertext for a sequence; later copies are duplicates.
  if arrival.seq < frames.nextSeq ∨ arrival.seq ∈ frames.pending then
    .ok ([], frames)
  else if frames.nextSeq < arrival.seq then
    if MAX_REORDER_DISTANCE < arrival.seq - frames.nextSeq then
      .error windowExceeded
    else if MAX_PENDING_BYTES < frames.pendingBytes + arrival.payload.length then
      .error bufferFull
    else
      .ok ([], hold frames arrival)
  else
    release frames arrival.payload

/-- The payload of the first arrival with this sequence number. -/
def firstCopy (arrivals : List Arrival) (seq : Nat) : Option Payload :=
  (arrivals.find? (fun arrival => arrival.seq.toNat == seq)).map Arrival.payload

/-- What holds inside one call, also between two rounds of the release loop: the released
    payloads are the copies `0, 1, …, nextSeq - 1`, the pending entries are copies ahead of
    them inside the window, and the byte counter is exact. -/
structure Window (copies : Nat → Option Payload) (released : List Payload)
    (frames : OrderedCiphertextFrames) : Prop where
  count : released.length = frames.nextSeq.toNat
  payloads : ∀ i, i < frames.nextSeq.toNat → released[i]? = copies i
  pendingCopies : ∀ seq payload, frames.pending.lookup seq = some payload →
    copies seq.toNat = some payload
  ahead : ∀ seq, seq ∈ frames.pending → frames.nextSeq.toNat ≤ seq.toNat
  near : ∀ seq, seq ∈ frames.pending → seq.toNat ≤ frames.nextSeq.toNat + 64
  bytes : frames.pendingBytes = total List.length frames.pending
  limit : frames.pendingBytes ≤ MAX_PENDING_BYTES

variable {copies : Nat → Option Payload} {released : List Payload}
   {frames : OrderedCiphertextFrames} {error : ExecServerError} {payload : Payload}
   {arrivals : List Arrival} {arrival : Arrival}

/-- The deadline is no part of the window. -/
theorem Window.withDeadline (window : Window copies released frames)
    (gapDeadline : Option Nat) : Window copies released { frames with gapDeadline } :=
  ⟨window.count, window.payloads, window.pendingCopies, window.ahead, window.near, window.bytes,
    window.limit⟩

/-- A sequence number is released or pending. -/
def Seen (frames : OrderedCiphertextFrames) (seq : UInt32) : Prop :=
  seq.toNat < frames.nextSeq.toNat ∨ seq ∈ frames.pending

theorem advance_ok {next : OrderedCiphertextFrames} (advanced : advance frames = .ok next) :
    ∃ nextSeq : UInt32, next = { frames with nextSeq } ∧
      nextSeq.toNat = frames.nextSeq.toNat + 1 := by
  unfold advance at advanced
  split at advanced
  · cases advanced
  · next nextSeq added =>
    simp only [Except.ok.injEq] at advanced
    exact ⟨nextSeq, advanced.symm, checkedAddU32_one_eq_some added⟩

theorem advance_error (failed : advance frames = .error error) :
    error = sequenceExhausted ∧ frames.nextSeq.toNat + 1 = 2 ^ 32 := by
  unfold advance at failed
  split at failed
  · next full =>
    simp only [Except.error.injEq] at failed
    exact ⟨failed.symm, checkedAddU32_one_eq_none full⟩
  · cases failed

theorem mem_of_lookup {seq : UInt32}
    (found : frames.pending.lookup seq = some payload) : seq ∈ frames.pending := by
  rw [← AList.lookup_isSome, found]
  rfl

/-- Releasing the next payload and advancing keeps the window. -/
theorem Window.release {nextSeq : UInt32} (window : Window copies released frames)
    (copy : copies frames.nextSeq.toNat = some payload) (absent : frames.nextSeq ∉ frames.pending)
    (advanced : nextSeq.toNat = frames.nextSeq.toNat + 1) :
    Window copies (released ++ [payload]) { frames with nextSeq } where
  count := by simp [window.count, advanced]
  payloads := by
    intro i below
    simp only [advanced] at below
    rcases Nat.lt_succ_iff_lt_or_eq.mp below with inside | rfl
    · rw [List.getElem?_append_left (by rw [window.count]; exact inside)]
      exact window.payloads i inside
    · rw [← window.count, List.getElem?_concat_length, window.count, copy]
  pendingCopies := window.pendingCopies
  ahead := by
    intro seq member
    have le := window.ahead seq member
    have ne : seq.toNat ≠ frames.nextSeq.toNat := by
      intro equal
      exact absent (UInt32.toNat_inj.mp equal ▸ member)
    simp only [advanced]
    omega
  near := by
    intro seq member
    have le := window.near seq member
    simp only [advanced]
    omega
  bytes := window.bytes
  limit := window.limit

/-- Taking the entry for the next sequence number out of the pending map does not
    underflow the byte counter and keeps the window. -/
theorem Window.take (window : Window copies released frames)
    (found : frames.pending.lookup frames.nextSeq = some payload) :
    payload.length ≤ frames.pendingBytes ∧
      Window copies released { frames with
        pending := frames.pending.erase frames.nextSeq
        pendingBytes := usizeSub frames.pendingBytes payload.length } := by
  have split := total_erase List.length found
  have fits : payload.length ≤ frames.pendingBytes := by
    rw [window.bytes]
    omega
  have limit := window.limit
  have subtract : usizeSub frames.pendingBytes payload.length =
      frames.pendingBytes - payload.length := by
    apply usizeSub_eq fits
    unfold MAX_PENDING_BYTES at limit
    omega
  refine ⟨fits, ?_⟩
  rw [subtract]
  exact
    { count := window.count
      payloads := window.payloads
      pendingCopies := by
        intro seq other remains
        by_cases equal : seq = frames.nextSeq
        · rw [equal, AList.lookup_erase] at remains
          cases remains
        · rw [AList.lookup_erase_ne equal] at remains
          exact window.pendingCopies seq other remains
      ahead := fun seq member => window.ahead seq (AList.mem_erase.mp member).2
      near := fun seq member => window.near seq (AList.mem_erase.mp member).2
      bytes := by
        have exact := window.bytes
        simp only
        omega
      limit := by simp only; omega }

/-- The release loop with enough fuel: it releases a contiguous run, keeps the window and
    every sequence number seen before, leaves the next one absent, and can only grow
    `nextSeq` and shrink the pending map. -/
theorem releaseContiguous_ok {fuel : Nat} {final : OrderedCiphertextFrames}
    {ready out : List Payload} (window : Window copies released frames)
    (enough : frames.pending.entries.length ≤ fuel)
    (ran : releaseContiguous fuel frames ready = .ok (out, final)) :
    ∃ more, out = ready ++ more ∧ Window copies (released ++ more) final ∧
      final.nextSeq ∉ final.pending ∧ final.gapDeadline = frames.gapDeadline ∧
      (∀ seq, seq ∈ final.pending → seq ∈ frames.pending) ∧
      (∀ seq, Seen frames seq → Seen final seq) := by
  induction fuel generalizing frames released ready with
  | zero =>
    simp only [releaseContiguous, Except.ok.injEq, Prod.mk.injEq] at ran
    obtain ⟨rfl, rfl⟩ := ran
    refine ⟨[], by simp, by simpa using window, ?_, rfl, fun _ member => member,
      fun _ seen => seen⟩
    have empty : frames.pending.entries = [] := List.length_eq_zero_iff.mp (by omega)
    simp [AList.mem_keys, AList.keys, empty]
  | succ fuel ih =>
    simp only [releaseContiguous] at ran
    split at ran
    · next absent =>
      simp only [Except.ok.injEq, Prod.mk.injEq] at ran
      obtain ⟨rfl, rfl⟩ := ran
      exact ⟨[], by simp, by simpa using window, AList.lookup_eq_none.mp absent, rfl,
        fun _ member => member, fun _ seen => seen⟩
    next payload found =>
    split at ran
    · cases ran
    next advancedFrames advanced =>
    obtain ⟨nextSeq, rfl, succ⟩ := advance_ok advanced
    have copy := window.pendingCopies _ _ found
    have taken := (window.take found).2.release copy (by simp [AList.mem_erase]) succ
    have shorter := length_erase found
    obtain ⟨more, rfl, window', fresh, deadline, subset, seen⟩ :=
      ih taken (by simp only; omega) ran
    refine ⟨payload :: more, by simp, by simpa using window', fresh, deadline,
      fun seq member => (AList.mem_erase.mp (subset seq member)).2, ?_⟩
    intro seq known
    apply seen
    rcases known with below | member
    · exact .inl (by simp only [succ]; omega)
    · by_cases equal : seq = frames.nextSeq
      · exact .inl (by simp only [succ, equal]; omega)
      · exact .inr (AList.mem_erase.mpr ⟨equal, member⟩)

/-- The release loop fails only at the end of the sequence space, with every remaining
    sequence number pending. -/
theorem releaseContiguous_error {fuel : Nat} {ready : List Payload}
    (failed : releaseContiguous fuel frames ready = .error error) :
    error = sequenceExhausted ∧
      ∀ seq : UInt32, frames.nextSeq.toNat ≤ seq.toNat → seq ∈ frames.pending := by
  induction fuel generalizing frames ready with
  | zero => simp [releaseContiguous] at failed
  | succ fuel ih =>
    simp only [releaseContiguous] at failed
    split at failed
    · cases failed
    next payload found =>
    have member := mem_of_lookup found
    split at failed
    · next error' full =>
      simp only [Except.error.injEq] at failed
      subst failed
      obtain ⟨rfl, last⟩ := advance_error full
      refine ⟨rfl, ?_⟩
      intro seq above
      have bound := seq.toNat_lt
      simp only at last
      have equal : seq = frames.nextSeq := UInt32.toNat_inj.mp (by omega)
      exact equal ▸ member
    next advancedFrames advanced =>
    obtain ⟨nextSeq, rfl, succ⟩ := advance_ok advanced
    obtain ⟨rfl, rest⟩ := ih failed
    refine ⟨rfl, ?_⟩
    intro seq above
    by_cases equal : seq = frames.nextSeq
    · exact equal ▸ member
    · have above' : nextSeq.toNat ≤ seq.toNat := by
        have ne : seq.toNat ≠ frames.nextSeq.toNat := fun h => equal (UInt32.toNat_inj.mp h)
        simp only at succ
        omega
      exact (AList.mem_erase.mp (rest seq above')).2

/-- The invariant between two calls, over the arrivals accepted so far. -/
structure Invariant (arrivals : List Arrival) (released : List Payload)
    (frames : OrderedCiphertextFrames) : Prop where
  window : Window (firstCopy arrivals) released frames
  fresh : frames.nextSeq ∉ frames.pending
  deadline : frames.gapDeadline.isSome ↔ frames.pending.entries ≠ []
  seen : ∀ arrival ∈ arrivals, Seen frames arrival.seq

theorem firstCopy_snoc {arrivals : List Arrival} {arrival : Arrival} {seq : Nat} {payload : Payload}
    (copy : firstCopy arrivals seq = some payload) :
    firstCopy (arrivals ++ [arrival]) seq = some payload := by
  unfold firstCopy at copy ⊢
  rw [List.find?_append]
  cases found : arrivals.find? (fun arrival => arrival.seq.toNat == seq) with
  | none => simp [found] at copy
  | some first => simpa [found] using copy

theorem firstCopy_snoc_new (unseen : ∀ other ∈ arrivals, other.seq ≠ arrival.seq) :
    firstCopy (arrivals ++ [arrival]) arrival.seq.toNat = some arrival.payload := by
  unfold firstCopy
  have none : arrivals.find? (fun other => other.seq.toNat == arrival.seq.toNat) = none := by
    rw [List.find?_eq_none]
    intro other member
    have ne := unseen other member
    simpa [UInt32.toNat_inj] using ne
  simp [List.find?_append, none]

theorem Window.mono {more : Nat → Option Payload} (window : Window copies released frames)
    (extended : ∀ seq payload, copies seq = some payload → more seq = some payload) :
    Window more released frames where
  count := window.count
  payloads := by
    intro i below
    have inside : i < released.length := by rw [window.count]; exact below
    have copy := window.payloads i below
    rw [List.getElem?_eq_getElem inside] at copy ⊢
    exact (extended i _ copy.symm).symm
  pendingCopies := fun seq payload found => extended _ _ (window.pendingCopies seq payload found)
  ahead := window.ahead
  near := window.near
  bytes := window.bytes
  limit := window.limit

theorem hold_pending (frames : OrderedCiphertextFrames) (arrival : Arrival) :
    (hold frames arrival).pending = frames.pending.insert arrival.seq arrival.payload := rfl

/-- An arrival ahead of the next sequence number is stored. -/
theorem Window.hold (window : Window copies released frames)
    (copy : copies arrival.seq.toNat = some arrival.payload) (absent : arrival.seq ∉ frames.pending)
    (ahead : frames.nextSeq.toNat < arrival.seq.toNat)
    (near : arrival.seq.toNat ≤ frames.nextSeq.toNat + 64)
    (room : frames.pendingBytes + arrival.payload.length ≤ MAX_PENDING_BYTES) :
    Window copies released (hold frames arrival) where
  count := window.count
  payloads := window.payloads
  pendingCopies := by
    intro seq payload found
    by_cases equal : seq = arrival.seq
    · rw [equal, hold_pending, AList.lookup_insert, Option.some.injEq] at found
      rw [equal, copy, found]
    · rw [hold_pending, AList.lookup_insert_ne equal] at found
      exact window.pendingCopies seq payload found
  ahead := by
    intro seq member
    rcases (AList.mem_insert _).mp member with rfl | member
    · exact Nat.le_of_lt ahead
    · exact window.ahead seq member
  near := by
    intro seq member
    rcases (AList.mem_insert _).mp member with rfl | member
    · exact near
    · exact window.near seq member
  bytes := by
    have bytes := window.bytes
    simp only [OrderedCiphertext.hold, total_insert List.length absent]
    omega
  limit := room

/-- An arrival that is neither below the window nor pending is the first copy of its
    sequence number. -/
theorem Invariant.first (invariant : Invariant arrivals released frames)
    (unseen : ¬ Seen frames arrival.seq) :
    firstCopy (arrivals ++ [arrival]) arrival.seq.toNat = some arrival.payload := by
  apply firstCopy_snoc_new
  intro other member equal
  exact unseen (equal ▸ invariant.seen other member)

/-- Everything one call can do, with the sequence numbers as naturals. -/
theorem push_cases {outcome : Except ExecServerError (List Payload × OrderedCiphertextFrames)}
    (pushed : push frames arrival = outcome) :
    (Seen frames arrival.seq ∧ outcome = .ok ([], frames)) ∨
    (frames.nextSeq.toNat + 64 < arrival.seq.toNat ∧ outcome = .error windowExceeded) ∨
    (frames.nextSeq.toNat < arrival.seq.toNat ∧
      MAX_PENDING_BYTES < frames.pendingBytes + arrival.payload.length ∧
      outcome = .error bufferFull) ∨
    (¬ Seen frames arrival.seq ∧ frames.nextSeq.toNat < arrival.seq.toNat ∧
      arrival.seq.toNat ≤ frames.nextSeq.toNat + 64 ∧
      frames.pendingBytes + arrival.payload.length ≤ MAX_PENDING_BYTES ∧
      outcome = .ok ([], hold frames arrival)) ∨
    (¬ Seen frames arrival.seq ∧ arrival.seq = frames.nextSeq ∧
      outcome = release frames arrival.payload) := by
  have seenIff : (arrival.seq < frames.nextSeq ∨ arrival.seq ∈ frames.pending) ↔
      Seen frames arrival.seq := by
    rw [Seen, UInt32.lt_iff_toNat_lt]
  have distance : frames.nextSeq < arrival.seq →
      (MAX_REORDER_DISTANCE < arrival.seq - frames.nextSeq ↔
        frames.nextSeq.toNat + 64 < arrival.seq.toNat) := by
    intro above
    rw [UInt32.lt_iff_toNat_lt] at above
    rw [UInt32.lt_iff_toNat_lt, UInt32.toNat_sub_of_le _ _ (UInt32.le_iff_toNat_le.mpr (by omega))]
    have sixtyFour : MAX_REORDER_DISTANCE.toNat = 64 := rfl
    omega
  unfold push at pushed
  split at pushed
  · next seen => exact .inl ⟨seenIff.mp seen, pushed.symm⟩
  next unseen =>
  rw [seenIff] at unseen
  split at pushed
  · next above =>
    have aboveNat := UInt32.lt_iff_toNat_lt.mp above
    split at pushed
    · next far => exact .inr (.inl ⟨(distance above).mp far, pushed.symm⟩)
    next near =>
    rw [distance above, Nat.not_lt] at near
    split at pushed
    · next full => exact .inr (.inr (.inl ⟨aboveNat, full, pushed.symm⟩))
    · next room =>
      rw [Nat.not_lt] at room
      exact .inr (.inr (.inr (.inl ⟨unseen, aboveNat, near, room, pushed.symm⟩)))
  · next notAbove =>
    have equal : arrival.seq = frames.nextSeq := by
      have notBelow : ¬ arrival.seq.toNat < frames.nextSeq.toNat := fun below => unseen (.inl below)
      rw [UInt32.lt_iff_toNat_lt] at notAbove
      exact UInt32.toNat_inj.mp (by omega)
    exact .inr (.inr (.inr (.inr ⟨unseen, equal, pushed.symm⟩)))

/-- The releasing branch: the expected record and the contiguous run behind it. -/
theorem Invariant.release_ok {out : List Payload} {final : OrderedCiphertextFrames}
    (invariant : Invariant arrivals released frames) (unseen : ¬ Seen frames arrival.seq)
    (expected : arrival.seq = frames.nextSeq)
    (ran : release frames arrival.payload = .ok (out, final)) :
    Invariant (arrivals ++ [arrival]) (released ++ out) final := by
  have copy := invariant.first unseen
  have window := invariant.window.mono (fun _ _ => @firstCopy_snoc arrivals arrival _ _)
  unfold release at ran
  split at ran
  · cases ran
  next advancedFrames advanced =>
  obtain ⟨nextSeq, rfl, succ⟩ := advance_ok advanced
  split at ran
  · cases ran
  next ready rest released' =>
  simp only [Except.ok.injEq, Prod.mk.injEq] at ran
  obtain ⟨rfl, rfl⟩ := ran
  rw [expected] at copy
  have first := window.release copy invariant.fresh succ
  obtain ⟨more, rfl, window', fresh, deadline, subset, seen⟩ :=
    releaseContiguous_ok first (Nat.le_refl _) released'
  rw [List.append_assoc] at window'
  refine ⟨window'.withDeadline _, fresh, ?_, ?_⟩
  · cases empty : rest.pending.entries with
    | nil => simp
    | cons entry entries =>
      simp only [List.isEmpty_cons, Bool.false_eq_true, if_false, deadline]
      -- The pending map only shrank, so it was not empty before either.
      have before : frames.pending.entries ≠ [] := by
        have member : entry.1 ∈ rest.pending := by
          simp [AList.mem_keys, AList.keys, empty]
        intro none
        have absent := subset entry.1 member
        simp [AList.mem_keys, AList.keys, none] at absent
      simpa using invariant.deadline.mpr before
  · intro other member
    rcases List.mem_append.mp member with member | member
    · apply seen
      rcases invariant.seen other member with below | pending
      · exact .inl (by simp only [succ]; omega)
      · exact .inr pending
    · obtain rfl := List.mem_singleton.mp member
      apply seen
      exact .inl (by simp only [succ, expected]; omega)

/-- One accepted call keeps the invariant. -/
theorem Invariant.push {arrivals : List Arrival} {released out : List Payload}
    {frames final : OrderedCiphertextFrames} {arrival : Arrival}
    (invariant : Invariant arrivals released frames)
    (pushed : OrderedCiphertext.push frames arrival = .ok (out, final)) :
    Invariant (arrivals ++ [arrival]) (released ++ out) final := by
  have window := invariant.window.mono (fun _ _ => @firstCopy_snoc arrivals arrival _ _)
  rcases push_cases pushed with ⟨seen, outcome⟩ | ⟨_, outcome⟩ | ⟨_, _, outcome⟩ |
    ⟨unseen, ahead, near, room, outcome⟩ | ⟨unseen, expected, outcome⟩
  · -- a duplicate changes nothing
    simp only [Except.ok.injEq, Prod.mk.injEq] at outcome
    obtain ⟨rfl, rfl⟩ := outcome
    refine ⟨by simpa using window, invariant.fresh, invariant.deadline, ?_⟩
    intro other member
    rcases List.mem_append.mp member with member | member
    · exact invariant.seen other member
    · obtain rfl := List.mem_singleton.mp member
      exact seen
  · cases outcome
  · cases outcome
  · simp only [Except.ok.injEq, Prod.mk.injEq] at outcome
    obtain ⟨rfl, rfl⟩ := outcome
    have absent : arrival.seq ∉ frames.pending := fun member => unseen (.inr member)
    refine ⟨by simpa using window.hold (invariant.first unseen) absent ahead near room, ?_, ?_, ?_⟩
    · rw [hold_pending, AList.mem_insert]
      rintro (equal | member)
      · rw [← equal] at ahead
        exact absurd ahead (Nat.lt_irrefl _)
      · exact invariant.fresh member
    · simp [hold]
    intro other member
    rcases List.mem_append.mp member with member | member
    · rcases invariant.seen other member with below | pending
      · exact .inl below
      · exact .inr ((AList.mem_insert _).mpr (.inr pending))
    · obtain rfl := List.mem_singleton.mp member
      exact .inr ((AList.mem_insert _).mpr (.inl rfl))
  · exact invariant.release_ok unseen expected outcome.symm

theorem invariant_empty : Invariant [] [] {} := by
  refine ⟨⟨rfl, ?_, ?_, ?_, ?_, rfl, by decide⟩, ?_, ?_, ?_⟩
  all_goals simp

theorem invariant_of_runAll (accepted : runAll push {} arrivals = .ok (released, frames)) :
    Invariant arrivals released frames :=
  (trace_of_runAll accepted).invariant invariant_empty
    (fun _ _ _ _ _ _ invariant pushed => invariant.push pushed)

/-- The expected record fails only when every later sequence number is pending. -/
theorem release_error (failed : release frames payload = .error error) :
    error = sequenceExhausted ∧
      ∀ seq : UInt32, frames.nextSeq.toNat < seq.toNat → seq ∈ frames.pending := by
  unfold release at failed
  split at failed
  · next error' full =>
    simp only [Except.error.injEq] at failed
    subst failed
    obtain ⟨rfl, last⟩ := advance_error full
    refine ⟨rfl, ?_⟩
    intro seq above
    have bound := seq.toNat_lt
    omega
  next advancedFrames advanced =>
  obtain ⟨nextSeq, rfl, succ⟩ := advance_ok advanced
  split at failed
  · next error' failedRun =>
    simp only [Except.error.injEq] at failed
    subst failed
    obtain ⟨rfl, rest⟩ := releaseContiguous_error failedRun
    exact ⟨rfl, fun seq above => rest seq (by simp only [succ]; omega)⟩
  · cases failed

/-- Every run of accepted arrivals, in any order and with any duplicates, has released
    exactly the first copies of `0, 1, …, nextSeq - 1` in order; the pending map, its byte
    counter and the gap deadline are as the window allows; and the next call can fail only
    outside the window, over the byte limit, or at the end of the sequence space. -/
theorem push_delivers_prefix_once {arrivals : List Arrival} {released : List Payload}
    {frames : OrderedCiphertextFrames}
    (accepted : runAll push {} arrivals = .ok (released, frames)) :
    released.map some = (List.range frames.nextSeq.toNat).map (firstCopy arrivals) ∧
    (∀ seq payload, frames.pending.lookup seq = some payload →
      frames.nextSeq.toNat < seq.toNat ∧ seq.toNat ≤ frames.nextSeq.toNat + 64 ∧
      payload.length ≤ frames.pendingBytes) ∧
    frames.pendingBytes = total List.length frames.pending ∧
    frames.pendingBytes ≤ MAX_PENDING_BYTES ∧
    (frames.gapDeadline.isSome ↔ frames.pending.entries ≠ []) ∧
    (∀ arrival error, push frames arrival = .error error →
      (error = windowExceeded ∧ frames.nextSeq.toNat + 64 < arrival.seq.toNat) ∨
      (error = bufferFull ∧ frames.nextSeq.toNat < arrival.seq.toNat ∧
        MAX_PENDING_BYTES < total List.length frames.pending + arrival.payload.length) ∨
      (error = sequenceExhausted ∧ arrival.seq = frames.nextSeq ∧
        ∀ seq : UInt32, frames.nextSeq.toNat < seq.toNat → seq ∈ frames.pending)) := by
  have invariant := invariant_of_runAll accepted
  have window := invariant.window
  refine ⟨?_, ?_, window.bytes, window.limit, invariant.deadline, ?_⟩
  · apply List.ext_getElem?
    intro i
    by_cases below : i < frames.nextSeq.toNat
    · have inside : i < released.length := by rw [window.count]; exact below
      have copy := window.payloads i below
      rw [List.getElem?_eq_getElem inside] at copy
      simp [inside, below, copy]
    · have outside : ¬ i < released.length := by rw [window.count]; exact below
      simp [outside, below]
  · intro seq payload found
    have member := mem_of_lookup found
    have ne : seq.toNat ≠ frames.nextSeq.toNat := by
      intro equal
      exact invariant.fresh (UInt32.toNat_inj.mp equal ▸ member)
    have ahead := window.ahead seq member
    have split := total_erase List.length found
    have bytes := window.bytes
    exact ⟨by omega, window.near seq member, by omega⟩
  intro arrival error pushed
  rcases push_cases pushed with ⟨_, outcome⟩ | ⟨far, outcome⟩ | ⟨ahead, full, outcome⟩ |
    ⟨_, _, _, _, outcome⟩ | ⟨_, expected, outcome⟩
  · cases outcome
  · cases outcome
    exact .inl ⟨rfl, far⟩
  · cases outcome
    rw [window.bytes] at full
    exact .inr (.inl ⟨rfl, ahead, full⟩)
  · cases outcome
  · obtain ⟨exhausted, rest⟩ := release_error outcome.symm
    exact .inr (.inr ⟨exhausted, expected, rest⟩)

/-- A reordered run with a duplicate: record 1 waits for record 0, whose second copy is
    dropped, and record 3 stays pending behind the gap at 2. -/
theorem push_delivers_prefix_once_reordered :
    ∃ frames, runAll push {} [⟨1, [11], 5⟩, ⟨0, [10], 6⟩, ⟨0, [99], 7⟩, ⟨3, [13], 8⟩] =
        .ok ([[10], [11]], frames) ∧
      [[10], [11]].map some = (List.range frames.nextSeq.toNat).map
        (firstCopy [⟨1, [11], 5⟩, ⟨0, [10], 6⟩, ⟨0, [99], 7⟩, ⟨3, [13], 8⟩]) := by
  refine ⟨⟨2, AList.singleton 3 [13], 1, some (8 + CIPHERTEXT_GAP_TIMEOUT)⟩, ?_, ?_⟩
  · rfl
  · exact (push_delivers_prefix_once rfl).1

/-- What is released depends on the copies, not on when they arrive: a run with the same copies
    and more has released as much and more. -/
theorem released_prefix_of_copies {others : List Arrival} {alsoReleased : List Payload}
    {otherFrames : OrderedCiphertextFrames}
    (accepted : runAll push {} arrivals = .ok (released, frames))
    (alsoAccepted : runAll push {} others = .ok (alsoReleased, otherFrames))
    (copied : ∀ seq payload, firstCopy arrivals seq = some payload →
      firstCopy others seq = some payload) : released <+: alsoReleased := by
  have window := (invariant_of_runAll accepted).window.mono copied
  have other := invariant_of_runAll alsoAccepted
  have le : frames.nextSeq.toNat ≤ otherFrames.nextSeq.toNat := by
    by_contra beyond
    -- the copy at which the other run waits has arrived there
    have copy := window.payloads otherFrames.nextSeq.toNat (by omega)
    rw [List.getElem?_eq_getElem (by rw [window.count]; omega)] at copy
    obtain ⟨arrival, found, -⟩ := Option.map_eq_some_iff.mp copy.symm
    have here : arrival.seq = otherFrames.nextSeq :=
      UInt32.toNat_inj.mp (by simpa using List.find?_some found)
    rcases here ▸ other.seen arrival (List.mem_of_find?_eq_some found) with before | pending
    · exact lt_irrefl _ before
    · exact other.fresh pending
  refine List.prefix_iff_getElem?.mpr fun i inside => ?_
  rw [window.count] at inside
  rw [other.window.payloads i (by omega), ← window.payloads i inside, List.getElem?_eq_getElem]

/-- The record that came first is released first, also where it comes last. -/
theorem released_prefix_of_copies_reordered : ([[10]] : List Payload) <+: [[10], [11]] :=
  released_prefix_of_copies
    (show runAll push {} [⟨0, [10], 6⟩] = .ok ([[10]], _) from rfl)
    (show runAll push {} [⟨1, [11], 5⟩, ⟨0, [10], 6⟩] = .ok ([[10], [11]], _) from rfl)
    fun seq payload copy => by
      cases seq with
      | zero => exact copy
      | succ seq => cases copy

end OrderedCiphertext

end Codex.ExecServer
