import Codex.ApplyPatch.ChunkRuns

/-!
# Disambiguation

`disambiguate` (`apply-patch/src/lib.rs:2601`) selects a candidate only when the listed chunks do:
every candidate accepts the chunk, and all candidates that let the rest of the hunk apply write the
same bytes.
-/

namespace Codex.ApplyPatch

open Codex.Text Codex.Splice

namespace ChunkMatcher

variable {matcher : ChunkMatcher} {chunkIndex : Nat} {cursor after : ChunkCursor}
  {ambiguity : Ambiguity}

/-- A trial of a candidate in a pass: the chunk is placed there and the remaining chunks apply. -/
def Trial (matcher : ChunkMatcher) (chunkIndex : Nat) (cursor : ChunkCursor)
    (ambiguity : Ambiguity) (pass : Pass) (candidate : Nat) (trial : ChunkCursor) : Prop :=
  ∃ site placed, matcher.candidateSite chunkIndex ambiguity candidate = some site ∧
    matcher.place chunkIndex site cursor false = .ok placed ∧
      matcher.matchTrial pass (chunkIndex + 1) placed = .ok trial

/-- The viable trials of a pass are the trials of its candidates. -/
theorem mem_viableTrials {pass : Pass} {candidates : List Nat} {candidate : Nat}
    {trial : ChunkCursor} :
    (candidate, trial) ∈ matcher.viableTrials pass chunkIndex
        (matcher.placedCandidates chunkIndex cursor ambiguity candidates) ↔
      candidate ∈ candidates ∧ Trial matcher chunkIndex cursor ambiguity pass candidate trial := by
  simp only [viableTrials, placedCandidates, List.mem_filterMap]
  constructor
  · rintro ⟨placed, ⟨listed, member, put⟩, tried⟩
    split at put
    · cases put
    next site found =>
      split at put
      next middle placedOk =>
        obtain rfl := Option.some_inj.mp put
        split at tried
        next result ok =>
          obtain ⟨rfl, rfl⟩ := Prod.mk.inj (Option.some_inj.mp tried)
          exact ⟨member, site, middle, found, placedOk, ok⟩
        · cases tried
      · cases put
  · rintro ⟨member, site, placed, found, put, tried⟩
    exact ⟨(candidate, placed), ⟨candidate, member, by simp [found, put]⟩, by simp [tried]⟩

/-- The check that a trial writes the same bytes compares it with every other. -/
theorem writeSameBytes_spec {first : Nat × ChunkCursor} {rest : List (Nat × ChunkCursor)}
    (same : matcher.writeSameBytes (first :: rest) = true) :
    ∃ output, ∀ trial ∈ first :: rest, matcher.trialOutput trial.2 = some output := by
  obtain ⟨candidate, cursor⟩ := first
  rw [writeSameBytes, Bool.and_eq_true] at same
  obtain ⟨output, written⟩ := Option.isSome_iff_exists.mp same.1
  refine ⟨output, ?_⟩
  intro trial member
  rcases List.mem_cons.mp member with rfl | other
  · exact written
  · have equal := List.all_eq_true.mp same.2 trial other
    rw [beq_iff_eq] at equal
    exact equal.trans written

/-- A successful disambiguation: every candidate with a site accepts the chunk, and all trials of
    the deciding pass write what the installed one writes. -/
theorem disambiguate_unanimous
    (chosen : matcher.disambiguate chunkIndex cursor ambiguity = .ok after) :
    (matcher.candidateStarts ambiguity).length ≤ DISAMBIGUATION_CANDIDATE_LIMIT ∧
    (∀ candidate ∈ matcher.candidateStarts ambiguity, ∀ site,
      matcher.candidateSite chunkIndex ambiguity candidate = some site →
        ∃ placed, matcher.place chunkIndex site cursor false = .ok placed) ∧
    ∃ pass, (pass = .inOrder ∨ pass = .relocating ∧
        ∀ candidate ∈ matcher.candidateStarts ambiguity, ∀ trial,
          ¬ Trial matcher chunkIndex cursor ambiguity .inOrder candidate trial) ∧
      (∃ candidate ∈ matcher.candidateStarts ambiguity,
        Trial matcher chunkIndex cursor ambiguity pass candidate after) ∧
      ∃ output, matcher.trialOutput after = some output ∧
        ∀ candidate ∈ matcher.candidateStarts ambiguity, ∀ trial,
          Trial matcher chunkIndex cursor ambiguity pass candidate trial →
            matcher.trialOutput trial = some output := by
  unfold ChunkMatcher.disambiguate at chosen
  simp only at chosen
  split at chosen
  · cases chosen
  next few =>
    split at chosen
    · cases chosen
    next first trial rest viable =>
      split at chosen
      next agreed =>
        obtain rfl := Except.ok.inj chosen
        rw [Bool.and_eq_true] at agreed
        obtain ⟨everywhere, same⟩ := agreed
        obtain ⟨output, written⟩ := writeSameBytes_spec same
        refine ⟨Nat.not_lt.mp few, ?_, ?_⟩
        · intro candidate member site found
          have accepted := List.all_eq_true.mp everywhere candidate member
          rw [found] at accepted
          simp only at accepted
          cases put : matcher.place chunkIndex site cursor false with
          | ok placed => exact ⟨placed, rfl⟩
          | error error =>
            rw [put] at accepted
            cases accepted
        have decided : ∀ pass, matcher.viableTrials pass chunkIndex
            (matcher.placedCandidates chunkIndex cursor ambiguity
              (matcher.candidateStarts ambiguity)) = (first, trial) :: rest →
            (∃ candidate ∈ matcher.candidateStarts ambiguity,
              Trial matcher chunkIndex cursor ambiguity pass candidate trial) ∧
            ∃ output, matcher.trialOutput trial = some output ∧
              ∀ candidate ∈ matcher.candidateStarts ambiguity, ∀ other,
                Trial matcher chunkIndex cursor ambiguity pass candidate other →
                  matcher.trialOutput other = some output := by
          intro pass viable
          have installed := mem_viableTrials.mp (viable ▸ List.mem_cons_self)
          refine ⟨⟨first, installed⟩, output, written _ List.mem_cons_self, ?_⟩
          intro candidate member other tried
          have listed := mem_viableTrials.mpr ⟨member, tried⟩
          rw [viable] at listed
          exact written _ listed
        split at viable
        next noneInOrder =>
          rw [List.isEmpty_iff] at noneInOrder
          refine ⟨.relocating, .inr ⟨rfl, ?_⟩, decided _ viable⟩
          intro candidate member other tried
          have listed := mem_viableTrials.mpr ⟨member, tried⟩
          rw [noneInOrder] at listed
          cases listed
        · exact ⟨.inOrder, .inl rfl, decided _ viable⟩
      · cases chosen

end ChunkMatcher

open ChunkMatcher

/-- A marked line as it is written. -/
def renderMarked (newline : Text) (line : Bool × Text) : Text :=
  if line.1 then line.2 ++ newline else line.2

/-- The lines of a source, marked as kept. -/
def PreparedSource.keptLines (source : PreparedSource) : List (Bool × Text) :=
  source.physicalLines.map fun line => (false, line)

/-- Replacing lines in a source writes the lines that are marked as they are spliced in. -/
theorem applyReplacements_rendered (source : PreparedSource) (edits : List (Splice.Edit Text)) :
    applyReplacements source.physicalLines
        (edits.map (mapEdit fun line => line ++ source.newline)) =
      (spliceAll source.keptLines (edits.map (mapEdit fun line => (true, line)))).map
        (renderMarked source.newline) := by
  rw [map_spliceAll, applyReplacements]
  congr 1
  · simp [PreparedSource.keptLines, renderMarked, Function.comp_def]
  · rw [List.map_map]
    refine List.map_congr_left ?_
    intro edit _
    simp [mapEdit, renderMarked, Function.comp_def]

/-- Trials with the same marked lines rewrite a source to the same bytes. -/
theorem rewrite_eq_of_trialOutput {sha256 : Text → Text}
    {diffSlices : List Text → List Text → List DiffOp} {source : Text}
    {chunks : List UpdateFileChunk} {first second : ChunkCursor} {output : List (Bool × Text)}
    (written : ((PreparedSource.new source).matcher sha256 diffSlices chunks).trialOutput first =
      some output)
    (same : ((PreparedSource.new source).matcher sha256 diffSlices chunks).trialOutput second =
      some output) :
    (PreparedSource.new source).rewrite first.intoSortedReplacements =
      (PreparedSource.new source).rewrite second.intoSortedReplacements := by
  have spliced : ∀ trial : ChunkCursor,
      ((PreparedSource.new source).matcher sha256 diffSlices chunks).trialOutput trial =
        some output →
      spliceAll (PreparedSource.new source).keptLines
        (trial.intoSortedReplacements.map (mapEdit fun line => (true, line))) = output := by
    intro trial shown
    unfold ChunkMatcher.trialOutput at shown
    split at shown
    · cases shown
    · exact Option.some_inj.mp shown
  unfold PreparedSource.rewrite
  simp only
  rw [applyReplacements_rendered, applyReplacements_rendered, spliced first written,
    spliced second same]

/-- Disambiguation never guesses. When the first positioned chunk of a hunk is ambiguous and a
    candidate is installed, there are at most eight windows at its tier, each of them that is a
    site accepts the chunk, and in the first pass in which a candidate lets the remaining chunks
    apply, all that do rewrite the source to the bytes that are installed. -/
theorem disambiguation_never_guesses (source : Text) (chunks : List UpdateFileChunk)
    (sha256 : Text → Text) (diffSlices : List Text → List Text → List DiffOp) (chunkIndex : Nat)
    (cursor after : ChunkCursor) (ambiguity : Ambiguity) :
    let matcher := (PreparedSource.new source).matcher sha256 diffSlices chunks
    let candidates := sites (PreparedSource.new source).logicalLines ambiguity.pattern
      ambiguity.start ambiguity.eof ambiguity.error.strictness
    matcher.locate chunkIndex cursor true = .ok (.ambiguous ambiguity) →
    matcher.disambiguate chunkIndex cursor ambiguity = .ok after →
    candidates.length ≤ 8 ∧
    (∀ candidate ∈ candidates, ∀ site,
      matcher.candidateSite chunkIndex ambiguity candidate = some site →
        ∃ placed, matcher.place chunkIndex site cursor false = .ok placed) ∧
    ∃ pass, (pass = .inOrder ∨ pass = .relocating ∧ ∀ candidate ∈ candidates, ∀ trial,
        ¬ Trial matcher chunkIndex cursor ambiguity .inOrder candidate trial) ∧
      (∃ candidate ∈ candidates, Trial matcher chunkIndex cursor ambiguity pass candidate after) ∧
      ∀ candidate ∈ candidates, ∀ trial,
        Trial matcher chunkIndex cursor ambiguity pass candidate trial →
          (PreparedSource.new source).rewrite trial.intoSortedReplacements =
            (PreparedSource.new source).rewrite after.intoSortedReplacements := by
  intro matcher candidates located chosen
  have starts := (ChunkMatcher.locate_ambiguous located).candidateStarts_eq
  obtain ⟨few, accepted, pass, decisive, installed, output, written, unanimous⟩ :=
    ChunkMatcher.disambiguate_unanimous chosen
  have short : candidates.length ≤ 8 := by
    rw [starts, List.length_take] at few
    simp only [DISAMBIGUATION_CANDIDATE_LIMIT, AMBIGUITY_REPORT_LIMIT] at few
    change min 17 candidates.length ≤ 8 at few
    omega
  have all : matcher.candidateStarts ambiguity = candidates := by
    rw [starts]
    exact List.take_of_length_le (Nat.le_trans short (by decide))
  rw [all] at accepted decisive installed unanimous
  refine ⟨short, accepted, pass, decisive, installed, ?_⟩
  intro candidate member trial tried
  exact rewrite_eq_of_trialOutput (unanimous candidate member trial tried) written

/-- Two chunks of which the first alone fits two lines, and the second one place only. -/
def laterChunkDecides : List UpdateFileChunk :=
  [⟨none, [['a']], [['c']], [.remove, .add], false⟩,
    ⟨none, [['a'], ['y']], [['a']], [.context, .remove], false⟩]

theorem disambiguation_never_guesses_later_chunk :
    let matcher := (PreparedSource.new "a\nx\na\ny\n".toList).matcher id (fun _ _ => [])
      laterChunkDecides
    let ambiguity : Ambiguity := ⟨⟨1, 3, .exact⟩, [['a']], false, 0, false, none⟩
    ∃ pass, ∃ candidate ∈ sites matcher.originalLines [['a']] 0 false .exact,
      Trial matcher 0 {} ambiguity pass candidate
        ⟨[⟨0, 1, [['c']], 0⟩, ⟨3, 1, [], 2⟩], [⟨0, 1, 1⟩, ⟨2, 4, 2⟩], 4, true⟩ := by
  obtain ⟨_, _, pass, _, installed, _⟩ := disambiguation_never_guesses "a\nx\na\ny\n".toList
    laterChunkDecides id (fun _ _ => []) 0 {}
    ⟨[⟨0, 1, [['c']], 0⟩, ⟨3, 1, [], 2⟩], [⟨0, 1, 1⟩, ⟨2, 4, 2⟩], 4, true⟩
    ⟨⟨1, 3, .exact⟩, [['a']], false, 0, false, none⟩ (by decide) rfl
  exact ⟨pass, installed⟩

end Codex.ApplyPatch
