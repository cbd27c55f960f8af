import Codex.ApplyPatch.ChunkSites

/-!
# Runs of the matcher

What placing a chunk does to the cursor, and how a fact that every placement keeps holds after a
whole hunk. When the window of a chunk is unique, every run places the chunk there.
-/

namespace Codex.ApplyPatch

open Codex.Text

namespace ChunkMatcher

variable {matcher : ChunkMatcher} {chunkIndex : Nat} {cursor : ChunkCursor}

/-- The replacement of an operation of a chunk that starts at a line. -/
def opReplacement (matcher : ChunkMatcher) (chunkIndex start order : Nat) (operation : DiffOp) :
    Replacement :=
  ⟨start + operation.oldStart, operation.oldLen,
    ((matcher.chunk chunkIndex).newLines.drop operation.newStart).take operation.newLen, order⟩

/-- The removed lines of an operation are those of the source. -/
def RemovesExactly (matcher : ChunkMatcher) (chunkIndex start : Nat) (operation : DiffOp) : Prop :=
  ∀ oldIndex, operation.oldStart ≤ oldIndex → oldIndex < operation.oldStart + operation.oldLen →
    (matcher.chunk chunkIndex).oldLines.getD oldIndex [] =
      matcher.originalLines.getD (start + oldIndex) []

section Placing

variable {site : ChunkSite} {after : ChunkCursor} {start order : Nat} {relocated : Bool}

theorem pushOperation_spec {operation : DiffOp}
    (pushed : matcher.pushOperation chunkIndex start order cursor operation = .ok after) :
    (operation.isEqual = true ∧ after = cursor) ∨
    (operation.isEqual = false ∧ RemovesExactly matcher chunkIndex start operation ∧
      after = { cursor with replacements := cursor.replacements ++
        [opReplacement matcher chunkIndex start order operation] }) := by
  unfold pushOperation at pushed
  simp only at pushed
  split at pushed
  next equal => exact .inl ⟨equal, (Except.ok.inj pushed).symm⟩
  next edited =>
    split at pushed
    · cases pushed
    next passed =>
      refine .inr ⟨Bool.eq_false_of_not_eq_true edited, ?_, (Except.ok.inj pushed).symm⟩
      intro oldIndex low high
      have checked := List.findSome?_eq_none_iff.mp passed oldIndex
        (List.mem_range'_1.mpr ⟨low, high⟩)
      unfold removedLineError at checked
      simp only at checked
      split at checked
      · cases checked
      · split at checked
        · cases checked
        next same => exact not_not.mp same

theorem pushOperations_spec {operations : List DiffOp}
    (pushed : matcher.pushOperations chunkIndex start order cursor operations = .ok after) :
    after = { cursor with
      replacements := cursor.replacements ++
        (operations.filter fun operation => !operation.isEqual).map
          (opReplacement matcher chunkIndex start order) } ∧
      ∀ operation ∈ operations, operation.isEqual = false →
        RemovesExactly matcher chunkIndex start operation := by
  induction operations generalizing cursor with
  | nil =>
    obtain rfl := Except.ok.inj pushed
    simp
  | cons operation rest ih =>
    rw [pushOperations] at pushed
    split at pushed
    · cases pushed
    next middle first =>
      obtain ⟨rfl, later⟩ := ih pushed
      rcases pushOperation_spec first with ⟨equal, rfl⟩ | ⟨edited, exact_, rfl⟩
      · refine ⟨by simp [equal], ?_⟩
        intro other member notEqual
        rcases List.mem_cons.mp member with rfl | old
        · rw [equal] at notEqual
          cases notEqual
        · exact later other old notEqual
      · refine ⟨by simp [edited], ?_⟩
        intro other member notEqual
        rcases List.mem_cons.mp member with rfl | old
        · exact exact_
        · exact later other old notEqual

/-- The order of the replacements of a chunk at a site. -/
def placeOrder (matcher : ChunkMatcher) (chunkIndex : Nat) (site : ChunkSite)
    (cursor : ChunkCursor) : Nat :=
  if matcher.bareAddition chunkIndex site then cursor.lineIndex
  else (matcher.claim chunkIndex site).start

/-- The replacements that a chunk contributes at a site. -/
structure Contributes (matcher : ChunkMatcher) (chunkIndex : Nat) (site : ChunkSite)
    (order : Nat) (replacements : List Replacement) : Prop where
  addition : (matcher.chunk chunkIndex).oldLines = [] →
    replacements = [⟨site.start, 0, (matcher.chunk chunkIndex).newLines, order⟩]
  edit : (matcher.chunk chunkIndex).oldLines ≠ [] → ∃ operations,
    chunkEditOperations matcher.diffSlices (matcher.chunk chunkIndex) = some operations ∧
      replacements = (operations.filter fun operation => !operation.isEqual).map
        (opReplacement matcher chunkIndex site.start order) ∧
      ∀ operation ∈ operations, operation.isEqual = false →
        RemovesExactly matcher chunkIndex site.start operation

theorem pushChunk_spec
    (pushed : matcher.pushChunk chunkIndex site cursor = .ok after) :
    ∃ replacements, Contributes matcher chunkIndex site
        (placeOrder matcher chunkIndex site cursor) replacements ∧
      after = { cursor with replacements := cursor.replacements ++ replacements } := by
  unfold pushChunk at pushed
  simp only at pushed
  split at pushed
  next bare =>
    rw [List.isEmpty_iff] at bare
    split at pushed
    · cases pushed
    · obtain rfl := Except.ok.inj pushed
      exact ⟨_, ⟨fun _ => rfl, fun lines => absurd bare lines⟩, rfl⟩
  next lines =>
    rw [List.isEmpty_iff] at lines
    split at pushed
    · cases pushed
    next operations edited =>
      obtain ⟨rfl, exact_⟩ := pushOperations_spec pushed
      exact ⟨_, ⟨fun bare => absurd bare lines, fun _ => ⟨operations, edited, rfl, exact_⟩⟩, rfl⟩

/-- What placing a chunk does to the cursor. -/
theorem place_spec (placed : matcher.place chunkIndex site cursor relocated = .ok after) :
    (relocated = true → ∀ other ∈ cursor.claimed,
      ¬ ((matcher.claim chunkIndex site).start < other.stop ∧
        other.start < (matcher.claim chunkIndex site).stop)) ∧
    ∃ replacements, Contributes matcher chunkIndex site
        (placeOrder matcher chunkIndex site cursor) replacements ∧
      after.replacements = cursor.replacements ++ replacements ∧
      (matcher.bareAddition chunkIndex site = true → after.claimed = cursor.claimed ∧
        after.lineIndex = cursor.lineIndex ∧ after.anchored = cursor.anchored) ∧
      (matcher.bareAddition chunkIndex site = false →
        after.claimed = cursor.claimed ++ [matcher.claim chunkIndex site] ∧
        (relocated = true → after.lineIndex = cursor.lineIndex ∧
          after.anchored = cursor.anchored) ∧
        (relocated = false → after.lineIndex = (matcher.claim chunkIndex site).stop ∧
          after.anchored = true)) := by
  unfold ChunkMatcher.place at placed
  simp only at placed
  split at placed
  · cases placed
  next free =>
    refine ⟨?_, ?_⟩
    · rintro rfl other member
      rw [if_pos rfl, List.find?_eq_none] at free
      simpa using free other member
    split at placed
    · cases placed
    next middle pushed =>
      obtain ⟨replacements, contributes, rfl⟩ := pushChunk_spec pushed
      refine ⟨replacements, contributes, ?_⟩
      split at placed
      next bare =>
        obtain rfl := Except.ok.inj placed
        exact ⟨rfl, fun _ => ⟨rfl, rfl, rfl⟩, fun claimed => by rw [bare] at claimed; cases claimed⟩
      next claims =>
        split at placed
        next moved =>
          obtain rfl := Except.ok.inj placed
          refine ⟨rfl, fun bare => absurd bare claims, fun _ => ⟨rfl, fun _ => ⟨rfl, rfl⟩, ?_⟩⟩
          intro inOrder
          rw [moved] at inOrder
          cases inOrder
        next inOrder =>
          obtain rfl := Except.ok.inj placed
          refine ⟨rfl, fun bare => absurd bare claims, fun _ => ⟨rfl, ?_, fun _ => ⟨rfl, rfl⟩⟩⟩
          exact fun moved => absurd moved inOrder

/-- The handle of a range that was matched, and what it does to the cursor. -/
theorem matchRange_spec {handle : Text}
    (matched : matcher.matchRange chunkIndex handle cursor = .ok after) :
    ∃ start stop, start < stop ∧ stop ≤ matcher.originalLines.length ∧ cursor.lineIndex ≤ start ∧
      after = ⟨cursor.replacements ++
          [⟨start, stop - start, (matcher.chunk chunkIndex).newLines, start⟩],
        cursor.claimed ++ [⟨start, stop, chunkIndex + 1⟩], stop, true⟩ := by
  unfold matchRange at matched
  split at matched
  · cases matched
  next start stop hash _ =>
    split at matched
    · cases matched
    next bounds =>
      split at matched
      · cases matched
      next ordered =>
        split at matched
        · cases matched
        simp only at matched
        split at matched
        · cases matched
        · obtain rfl := Except.ok.inj matched
          refine ⟨start - 1, stop, by omega, by omega, by omega, ?_⟩
          simp only [ChunkCursor.push, show stop - (start - 1) = stop - start + 1 by omega]

end Placing

/-- What each placement keeps, from the cursor before a chunk to the cursor after it. -/
structure Keeps (matcher : ChunkMatcher) (holds : Nat → ChunkCursor → Prop) : Prop where
  range : ∀ {chunkIndex handle cursor after}, holds chunkIndex cursor →
    chunkIndex < matcher.chunks.length →
    (matcher.chunk chunkIndex).changeContext.bind (stripPrefix CODEX_RANGE) = some handle →
    matcher.matchRange chunkIndex handle cursor = .ok after → holds (chunkIndex + 1) after
  listed : ∀ {chunkIndex site cursor after}, holds chunkIndex cursor →
    chunkIndex < matcher.chunks.length → MayPlace matcher chunkIndex site →
    (matcher.bareAddition chunkIndex site = true ∨
      cursor.lineIndex ≤ (matcher.claim chunkIndex site).start) →
    matcher.place chunkIndex site cursor false = .ok after → holds (chunkIndex + 1) after
  relocated : ∀ {chunkIndex site cursor after}, holds chunkIndex cursor →
    chunkIndex < matcher.chunks.length → MayPlace matcher chunkIndex site →
    (matcher.claim chunkIndex site).start < cursor.lineIndex → cursor.anchored = true →
    matcher.bareAddition chunkIndex site = false →
    matcher.place chunkIndex site cursor true = .ok after → holds (chunkIndex + 1) after

section Runs

variable {holds : Nat → ChunkCursor → Prop} {after : ChunkCursor} {pass : Pass}
  {disambiguate : Nat → ChunkCursor → Ambiguity → Except MatchError ChunkCursor}

/-- A chunk is matched by its range, placed, or left to the disambiguation. -/
theorem matchChunk_spec {flow : ChunkFlow}
    (matched : matcher.matchChunk disambiguate pass chunkIndex cursor = .ok (flow, after)) :
    (flow = .next ∧ ∀ holds, Keeps matcher holds → holds chunkIndex cursor →
      chunkIndex < matcher.chunks.length → holds (chunkIndex + 1) after) ∨
    (flow = .finished ∧ pass = .primary ∧ ∃ ambiguity,
      matcher.locate chunkIndex cursor true = .ok (.ambiguous ambiguity) ∧
        ambiguity.outOfOrderAfter = none ∧
          disambiguate chunkIndex cursor ambiguity = .ok after) := by
  unfold matchChunk at matched
  split at matched
  next handle isRange =>
    obtain ⟨before, ranged, same⟩ := Except.map_eq_ok matched
    obtain ⟨rfl, rfl⟩ := Prod.mk.inj same
    exact .inl ⟨rfl, fun holds keeps start inside => keeps.range start inside isRange ranged⟩
  · split at matched
    · split at matched
      · cases matched
      · split at matched
        · cases matched
        · cases matched
        · cases matched
    next site located =>
      obtain ⟨before, placed, same⟩ := Except.map_eq_ok matched
      obtain ⟨rfl, rfl⟩ := Prod.mk.inj same
      refine .inl ⟨rfl, fun holds keeps start inside => ?_⟩
      rcases locate_spec located with ⟨other, same, _, ahead⟩ | ⟨other, same, _⟩ | ⟨other, same, _⟩
      · obtain rfl := Located.site.inj same
        exact keeps.listed start inside (.listed cursor _ located) ahead placed
      · cases same
      · cases same
    next site located =>
      obtain ⟨before, placed, same⟩ := Except.map_eq_ok matched
      obtain ⟨rfl, rfl⟩ := Prod.mk.inj same
      refine .inl ⟨rfl, fun holds keeps start inside => ?_⟩
      rcases locate_spec located with ⟨other, same, _⟩ |
        ⟨other, same, _, behind, anchored, notBare⟩ | ⟨other, same, _⟩
      · cases same
      · obtain rfl := Located.relocated.inj same
        exact keeps.relocated start inside (.relocated cursor _ located) behind anchored notBare
          placed
      · cases same
    next ambiguity located =>
      split at matched
      · cases matched
      next primary =>
        split at matched
        · cases matched
        next inOrder =>
          obtain ⟨before, chosen, same⟩ := Except.map_eq_ok matched
          obtain ⟨rfl, rfl⟩ := Prod.mk.inj same
          have isPrimary : pass = .primary := not_not.mp primary
          subst isPrimary
          exact .inr ⟨rfl, rfl, ambiguity, located, by simpa using inOrder, chosen⟩

/-- What the placements keep holds after a run over the chunks, where it holds after every
    disambiguation. -/
theorem Keeps.matchChunks (keeps : Keeps matcher holds) {first : Nat}
    (start : holds first cursor) (inside : first ≤ matcher.chunks.length)
    (chooses : ∀ {chunkIndex before after ambiguity}, holds chunkIndex before →
      chunkIndex < matcher.chunks.length →
      matcher.locate chunkIndex before true = .ok (.ambiguous ambiguity) →
      ambiguity.outOfOrderAfter = none →
      disambiguate chunkIndex before ambiguity = .ok after → holds matcher.chunks.length after)
    (matched : matcher.matchChunks disambiguate pass (matcher.chunkIndices first) cursor =
      .ok after) :
    holds matcher.chunks.length after := by
  unfold chunkIndices at matched
  generalize count : matcher.chunks.length - first = remaining at matched
  induction remaining generalizing first cursor with
  | zero =>
    obtain rfl : first = matcher.chunks.length := by omega
    obtain rfl := Except.ok.inj matched
    exact start
  | succ remaining ih =>
    rw [List.range'_succ, ChunkMatcher.matchChunks] at matched
    split at matched
    · cases matched
    next middle chunked =>
      obtain rfl := Except.ok.inj matched
      rcases matchChunk_spec chunked with ⟨flow, _⟩ | ⟨_, _, ambiguity, located, inOrder, chosen⟩
      · cases flow
      · exact chooses start (by omega) located inOrder chosen
    next middle chunked =>
      rcases matchChunk_spec chunked with ⟨_, step⟩ | ⟨flow, _⟩
      · exact ih (step holds keeps start (by omega)) (by omega) (by omega) matched
      · cases flow

/-- What the placements keep holds after the chunks of a trial. -/
theorem Keeps.matchTrial (keeps : Keeps matcher holds) {first : Nat}
    (start : holds first cursor) (inside : first ≤ matcher.chunks.length)
    (matched : matcher.matchTrial pass first cursor = .ok after) :
    holds matcher.chunks.length after :=
  keeps.matchChunks start inside (fun _ _ _ _ chosen => by cases chosen) matched

theorem mem_placedCandidates {ambiguity : Ambiguity} {candidates : List Nat}
    {placed : Nat × ChunkCursor}
    (member : placed ∈ matcher.placedCandidates chunkIndex cursor ambiguity candidates) :
    ∃ candidate ∈ candidates, ∃ site,
      matcher.candidateSite chunkIndex ambiguity candidate = some site ∧
        matcher.place chunkIndex site cursor false = .ok placed.2 := by
  obtain ⟨candidate, listed, tried⟩ := List.mem_filterMap.mp member
  refine ⟨candidate, listed, ?_⟩
  split at tried
  · cases tried
  next site found =>
    split at tried
    next trial put =>
      obtain rfl := Option.some_inj.mp tried
      exact ⟨site, found, put⟩
    · cases tried

/-- What a successful disambiguation installs: a candidate was placed, and a trial matched the
    remaining chunks. -/
theorem disambiguate_spec {ambiguity : Ambiguity}
    (chosen : matcher.disambiguate chunkIndex cursor ambiguity = .ok after) :
    ∃ candidate ∈ matcher.candidateStarts ambiguity, ∃ site placed,
      matcher.candidateSite chunkIndex ambiguity candidate = some site ∧
        matcher.place chunkIndex site cursor false = .ok placed ∧
          ∃ pass, matcher.matchTrial pass (chunkIndex + 1) placed = .ok after := by
  unfold ChunkMatcher.disambiguate at chosen
  simp only at chosen
  split at chosen
  · cases chosen
  split at chosen
  · cases chosen
  next first trial rest viable =>
    split at chosen
    · obtain rfl := Except.ok.inj chosen
      have fromPass : ∃ pass, (first, trial) ∈ matcher.viableTrials pass chunkIndex
          (matcher.placedCandidates chunkIndex cursor ambiguity
            (matcher.candidateStarts ambiguity)) := by
        split at viable
        · exact ⟨.relocating, viable ▸ List.mem_cons_self⟩
        · exact ⟨.inOrder, viable ▸ List.mem_cons_self⟩
      obtain ⟨pass, member⟩ := fromPass
      obtain ⟨placed, placedMember, tried⟩ := List.mem_filterMap.mp member
      obtain ⟨candidate, listed, site, found, put⟩ := mem_placedCandidates placedMember
      refine ⟨candidate, listed, site, placed.2, found, put, pass, ?_⟩
      split at tried
      next result ok =>
        obtain ⟨_, rfl⟩ := Prod.mk.inj (Option.some_inj.mp tried)
        exact ok
      · cases tried
    · cases chosen

/-- What the placements keep holds after all chunks of a hunk. -/
theorem Keeps.matchFrom (keeps : Keeps matcher holds) {first : Nat}
    (start : holds first cursor) (inside : first ≤ matcher.chunks.length)
    (matched : matcher.matchFrom first cursor = .ok after) :
    holds matcher.chunks.length after := by
  refine keeps.matchChunks start inside ?_ matched
  intro chunkIndex before after ambiguity start inside located inOrder chosen
  obtain ⟨candidate, listed, site, placed, found, put, pass, tried⟩ := disambiguate_spec chosen
  have of := (locate_ambiguous located)
  obtain ⟨_, claim, ahead, _⟩ := of.candidateSite_spec listed found
  have placedHolds : holds (chunkIndex + 1) placed :=
    keeps.listed start inside
      (.candidate before true ambiguity candidate located listed found)
      (.inr (by rw [claim, ← (of.start inOrder).1]; exact ahead)) put
  exact keeps.matchTrial placedHolds inside tried

end Runs

/-- A span that was claimed in a run: one that was claimed before, that of a range, or that of a
    placement. -/
def ClaimedBy (matcher : ChunkMatcher) (before : List ClaimedSpan) (claim : ClaimedSpan) : Prop :=
  claim ∈ before ∨
  (∃ chunkIndex handle, claim.chunkOrdinal = chunkIndex + 1 ∧
    (matcher.chunk chunkIndex).changeContext.bind (stripPrefix CODEX_RANGE) = some handle) ∨
  ∃ chunkIndex site, MayPlace matcher chunkIndex site ∧ claim = matcher.claim chunkIndex site

theorem keeps_claimedBy (matcher : ChunkMatcher) (before : List ClaimedSpan) :
    Keeps matcher fun _ cursor => ∀ claim ∈ cursor.claimed, ClaimedBy matcher before claim := by
  have placed : ∀ {chunkIndex site cursor after relocated},
      (∀ claim ∈ cursor.claimed, ClaimedBy matcher before claim) →
      MayPlace matcher chunkIndex site →
      matcher.place chunkIndex site cursor relocated = .ok after →
      ∀ claim ∈ after.claimed, ClaimedBy matcher before claim := by
    intro chunkIndex site cursor after relocated known may placed claim member
    obtain ⟨_, replacements, _, _, bare, claims⟩ := place_spec placed
    cases isBare : matcher.bareAddition chunkIndex site with
    | true =>
      rw [(bare isBare).1] at member
      exact known claim member
    | false =>
      rw [(claims isBare).1] at member
      rcases List.mem_append.mp member with old | new
      · exact known claim old
      · exact .inr (.inr ⟨chunkIndex, site, may, List.mem_singleton.mp new⟩)
  refine ⟨?_, fun known _ may _ put => placed known may put,
    fun known _ may _ _ _ put => placed known may put⟩
  intro chunkIndex handle cursor after known _ isRange ranged claim member
  obtain ⟨start, stop, _, _, _, rfl⟩ := matchRange_spec ranged
  rcases List.mem_append.mp member with old | new
  · exact known claim old
  · rw [List.mem_singleton] at new
    exact .inr (.inl ⟨chunkIndex, handle, by rw [new], isRange⟩)

end ChunkMatcher

open ChunkMatcher

theorem unique_of_chunkWithoutUniqueSite {source : Text} {chunks : List UpdateFileChunk}
    (unique : chunkWithoutUniqueSite source chunks = none) {chunk : UpdateFileChunk}
    (member : chunk ∈ chunks) (textual : isTextual chunk = true) (nonempty : siteLines chunk ≠ []) :
    (candidateStartsAtAnyTier (PreparedSource.new source).logicalLines (siteLines chunk) 2).length =
      1 := by
  unfold chunkWithoutUniqueSite at unique
  rw [Option.map_eq_none_iff, List.findIdx?_eq_none_iff] at unique
  simpa [textual, nonempty] using unique chunk member

/-- When each textual chunk has one site, the matcher places it there and nowhere else: from any
    cursor, in listed order, relocated or as a candidate, and in every run that matches. -/
theorem chunks_keep_their_sites (source : Text) (chunks : List UpdateFileChunk)
    (sha256 : Text → Text) (diffSlices : List Text → List Text → List DiffOp)
    (unique : chunkWithoutUniqueSite source chunks = none) (chunkIndex : Nat)
    (chunk : UpdateFileChunk) (listed : chunks[chunkIndex]? = some chunk)
    (textual : isTextual chunk = true) (nonempty : siteLines chunk ≠ []) :
    let matcher := (PreparedSource.new source).matcher sha256 diffSlices chunks
    ∃ window, candidateStartsAtAnyTier (PreparedSource.new source).logicalLines (siteLines chunk)
        2 = [window] ∧
      (∀ site, MayPlace matcher chunkIndex site →
        (matcher.claim chunkIndex site).start = window ∧
          (matcher.claim chunkIndex site).stop = window + (siteLines chunk).length) ∧
      ∀ first cursor after, first ≤ chunks.length →
        (matcher.matchFrom first cursor = .ok after ∨
          ∃ pass, matcher.matchTrial pass first cursor = .ok after) →
        ∀ claim ∈ after.claimed, claim ∉ cursor.claimed → claim.chunkOrdinal = chunkIndex + 1 →
          claim.start = window ∧ claim.stop = window + (siteLines chunk).length := by
  intro matcher
  obtain ⟨window, only, everywhere⟩ := unique_window nonempty
    (unique_of_chunkWithoutUniqueSite unique (List.mem_of_getElem? listed) textual nonempty)
  have same : matcher.chunk chunkIndex = chunk := by
    simp [matcher, ChunkMatcher.chunk, PreparedSource.matcher, List.getD_eq_getElem?_getD, listed]
  have atWindow : ∀ site, MayPlace matcher chunkIndex site →
      (matcher.claim chunkIndex site).start = window ∧
        (matcher.claim chunkIndex site).stop = window + (siteLines chunk).length := by
    intro site may
    have covered := may.siteOf.window (by rwa [same])
    rw [same] at covered
    have start := everywhere _ covered.1
    exact ⟨start, by rw [covered.2, start]⟩
  refine ⟨window, only, atWindow, ?_⟩
  intro first cursor after inside matched claim member new ordinal
  have claimedBy : ClaimedBy matcher cursor.claimed claim := by
    have keeps := keeps_claimedBy matcher cursor.claimed
    have start : ∀ claim ∈ cursor.claimed, ClaimedBy matcher cursor.claimed claim :=
      fun _ old => .inl old
    rcases matched with primary | ⟨pass, trial⟩
    · exact keeps.matchFrom start inside primary claim member
    · exact keeps.matchTrial start inside trial claim member
  rcases claimedBy with old | ⟨other, handle, otherOrdinal, isRange⟩ | ⟨other, site, may, rfl⟩
  · exact absurd old new
  · obtain rfl : other = chunkIndex := by omega
    rw [same] at isRange
    obtain ⟨context, context_, stripped⟩ := Option.bind_eq_some_iff.mp isRange
    rw [stripPrefix_eq_some] at stripped
    have ranged : contextStartsWith CODEX_RANGE chunk = true := by
      simp [contextStartsWith, context_, startsWith, stripped]
    simp [isTextual, ranged] at textual
  · obtain rfl : other = chunkIndex := Nat.succ.inj ordinal
    exact atWindow site may

/-- A chunk whose old line is in the source once is placed at that line. -/
theorem chunks_keep_their_sites_once :
    let matcher := (PreparedSource.new "a\nb\n".toList).matcher id (fun _ _ => [])
      [⟨none, [['b']], [['c']], [.remove, .add], false⟩]
    ∃ window, candidateStartsAtAnyTier (PreparedSource.new "a\nb\n".toList).logicalLines [['b']] 2 =
        [window] ∧
      (∀ site, MayPlace matcher 0 site → (matcher.claim 0 site).start = window ∧
        (matcher.claim 0 site).stop = window + 1) ∧
      ∀ first cursor after, first ≤ 1 →
        (matcher.matchFrom first cursor = .ok after ∨
          ∃ pass, matcher.matchTrial pass first cursor = .ok after) →
        ∀ claim ∈ after.claimed, claim ∉ cursor.claimed → claim.chunkOrdinal = 1 →
          claim.start = window ∧ claim.stop = window + 1 :=
  chunks_keep_their_sites "a\nb\n".toList [⟨none, [['b']], [['c']], [.remove, .add], false⟩] id
    (fun _ _ => []) (by decide) 0 ⟨none, [['b']], [['c']], [.remove, .add], false⟩ rfl (by decide)
    (by decide)

end Codex.ApplyPatch
