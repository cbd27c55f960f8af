import Codex.ApplyPatch.NewContents

/-!
# Sites of chunks

Where the matcher may place a chunk: its anchor and its old lines are the lines of one window of
the source, up to whitespace and punctuation.
-/

namespace Codex.ApplyPatch

open Codex.Text

/-- The lines of a pattern are in the source at a start, at the last tier. -/
structure WindowAt (lines pattern : List Text) (start : Nat) : Prop where
  inside : start + pattern.length ≤ lines.length
  same : matchesAt .unicodeNormalized lines pattern start = true

section Windows

variable {lines pattern : List Text} {start index : Nat} {eof anchored : Bool}

theorem windowAt_of_sites {strictness : Strictness}
    (found : index ∈ sites lines pattern start eof strictness) : WindowAt lines pattern index := by
  obtain ⟨window, matches_⟩ := mem_sites.mp found
  exact ⟨(mem_windows.mp window).1, matchesAt_unicodeNormalized matches_⟩

theorem windowAt_of_take {stop : Nat} (window : WindowAt (lines.take stop) pattern start) :
    WindowAt lines pattern start := by
  obtain ⟨inside, same⟩ := window
  rw [List.length_take] at inside
  refine ⟨by omega, ?_⟩
  rw [matchesAt_iff] at same ⊢
  rwa [List.drop_take, List.take_take, Nat.min_eq_left (by omega)] at same

/-- A window of one pattern right after a window of another is a window of both. -/
theorem WindowAt.append {front back : List Text} (first : WindowAt lines front start)
    (second : WindowAt lines back (start + front.length)) :
    WindowAt lines (front ++ back) start := by
  refine ⟨by rw [List.length_append]; have := second.inside; omega, ?_⟩
  have same := matchesAt_iff.mp first.same
  have after := matchesAt_iff.mp second.same
  rw [matchesAt_iff, List.length_append, List.take_add, List.map_append, List.map_append, same,
    List.drop_drop, after]

/-- A pattern whose candidates are one window is in the source there only. -/
theorem unique_window (nonempty : pattern ≠ [])
    (single : (candidateStartsAtAnyTier lines pattern 2).length = 1) :
    ∃ window, candidateStartsAtAnyTier lines pattern 2 = [window] ∧
      ∀ start, WindowAt lines pattern start → start = window := by
  obtain ⟨window, only⟩ := List.length_eq_one_iff.mp single
  refine ⟨window, only, ?_⟩
  intro start found
  have inside := found.inside
  have full : pattern.isEmpty = false := by simpa using nonempty
  unfold candidateStartsAtAnyTier at only
  rw [if_neg (by simp [full]; omega), tierMatches_eq nonempty (by omega)] at only
  have member : start ∈ (searchRange 0 (lines.length - pattern.length)).filter
      (matchesAt .unicodeNormalized lines pattern) := by
    refine List.mem_filter.mpr ⟨?_, found.same⟩
    rw [searchRange, List.mem_range'_1]
    omega
  generalize (searchRange 0 (lines.length - pattern.length)).filter
    (matchesAt .unicodeNormalized lines pattern) = all at only member
  rcases all with _ | ⟨first, _ | ⟨second, rest⟩⟩
  · cases member
  · rw [List.mem_singleton] at member
    exact member.trans (List.singleton_inj.mp only)
  · exact absurd (congrArg List.length only) (by simp)

/-- A search that found nothing from a line on left no window there: the site of a search in the
    whole file starts before. -/
theorem before_of_none {strictness : Strictness} {line : Nat} (nonempty : pattern ≠ [])
    (ahead : seekSequence lines pattern line eof anchored = .ok none)
    (site : index ∈ sites lines pattern start eof strictness) : index < line := by
  by_contra late
  obtain ⟨window, matches_⟩ := mem_sites.mp site
  have bounds := mem_windows.mp window
  have member : index ∈ sites lines pattern line eof strictness :=
    mem_sites.mpr ⟨mem_windows.mpr ⟨bounds.1, Nat.not_lt.mp late, bounds.2.2⟩, matches_⟩
  rw [seekSequence_none nonempty ahead strictness] at member
  cases member

end Windows

namespace ChunkMatcher

variable {matcher : ChunkMatcher} {chunkIndex : Nat} {cursor : ChunkCursor} {relocate : Bool}

/-- A site has the anchor and the old lines of its chunk; a chunk without both is at the end. -/
structure SiteOf (matcher : ChunkMatcher) (chunkIndex : Nat) (site : ChunkSite) : Prop where
  anchor : ∀ index, site.anchor = some index → site.start = index + 1 ∧ ∃ context,
    (matcher.chunk chunkIndex).changeContext = some context ∧
      WindowAt matcher.originalLines [context] index
  free : site.anchor = none → (matcher.chunk chunkIndex).changeContext = none
  lines : (matcher.chunk chunkIndex).oldLines ≠ [] →
    WindowAt matcher.originalLines (matcher.chunk chunkIndex).oldLines site.start
  bare : (matcher.chunk chunkIndex).oldLines = [] → site.anchor = none →
    site.start = matcher.originalLines.length

/-- The search of an ambiguity, and the candidates it found. -/
structure AmbiguityOf (matcher : ChunkMatcher) (chunkIndex : Nat) (cursor : ChunkCursor)
    (ambiguity : Ambiguity) : Prop where
  nonempty : ambiguity.pattern ≠ []
  context : ambiguity.context = true → ∃ context,
    (matcher.chunk chunkIndex).changeContext = some context ∧ ambiguity.pattern = [context]
  lines : ambiguity.context = false → (matcher.chunk chunkIndex).changeContext = none ∧
    ambiguity.pattern = (matcher.chunk chunkIndex).oldLines
  found : ∃ first second rest, sites matcher.originalLines ambiguity.pattern ambiguity.start
    ambiguity.eof ambiguity.error.strictness = first :: second :: rest ∧
      ambiguity.error.firstLine = first + 1 ∧ ambiguity.error.secondLine = second + 1
  start : ambiguity.outOfOrderAfter = none →
    ambiguity.start = cursor.lineIndex ∧ cursor.anchored = false

theorem followingAnchor_spec {anchorIndex start : Nat}
    (nonempty : (matcher.chunk chunkIndex).oldLines ≠ [])
    (found : matcher.followingAnchor chunkIndex anchorIndex = some start) :
    start = anchorIndex + 1 ∧
      WindowAt matcher.originalLines (matcher.chunk chunkIndex).oldLines start := by
  unfold followingAnchor at found
  simp only at found
  split at found
  next index sought =>
    split at found
    · obtain rfl := Option.some_inj.mp found
      obtain ⟨strictness, site⟩ := seekSequence_found nonempty sought
      have bounds := mem_windows.mp (mem_sites.mp site).1
      rw [List.length_take] at bounds
      exact ⟨by omega, windowAt_of_take (windowAt_of_sites site)⟩
    · cases found
  · cases found

/-- What the search for an anchor finds. -/
theorem searchAnchor_spec (matcher : ChunkMatcher) (chunkIndex : Nat) (cursor : ChunkCursor)
    (relocate : Bool) :
    (matcher.searchAnchor chunkIndex cursor relocate = .absent ∧
      (matcher.chunk chunkIndex).changeContext = none) ∨
    (∃ context, (matcher.chunk chunkIndex).changeContext = some context ∧
      (matcher.searchAnchor chunkIndex cursor relocate = .missing ∨
      (∃ index, matcher.searchAnchor chunkIndex cursor relocate = .found index false ∧
        WindowAt matcher.originalLines [context] index ∧ cursor.lineIndex ≤ index) ∨
      (∃ index, matcher.searchAnchor chunkIndex cursor relocate = .found index true ∧
        WindowAt matcher.originalLines [context] index ∧ index < cursor.lineIndex ∧
          cursor.anchored = true ∧ relocate = true) ∨
      (∃ ambiguity, matcher.searchAnchor chunkIndex cursor relocate = .ambiguous ambiguity ∧
        AmbiguityOf matcher chunkIndex cursor ambiguity))) := by
  cases context_ : (matcher.chunk chunkIndex).changeContext with
  | none =>
    left
    simp [searchAnchor, context_]
  | some context =>
    refine .inr ⟨context, rfl, ?_⟩
    have nonempty : [context] ≠ [] := List.cons_ne_nil _ _
    simp only [searchAnchor, context_]
    cases ahead : seekSequence matcher.originalLines [context] cursor.lineIndex false
        cursor.anchored with
    | error error =>
      obtain ⟨free, found⟩ := seekSequence_error nonempty ahead
      refine .inr (.inr (.inr ⟨_, rfl, nonempty, ?_, ?_, found, ?_⟩))
      · exact fun _ => ⟨context, context_, rfl⟩
      · intro isLines
        cases isLines
      · exact fun _ => ⟨rfl, free⟩
    | ok result =>
      cases result with
      | some index =>
        obtain ⟨strictness, site⟩ := seekSequence_found nonempty ahead
        exact .inr (.inl ⟨index, rfl, windowAt_of_sites site,
          (mem_windows.mp (mem_sites.mp site).1).2.1⟩)
      | none =>
        simp only
        split
        next relocates =>
          rw [Bool.and_eq_true] at relocates
          cases whole : seekSequence matcher.originalLines [context] 0 false false with
          | error error =>
            obtain ⟨_, found⟩ := seekSequence_error nonempty whole
            refine .inr (.inr (.inr ⟨_, rfl, nonempty, ?_, ?_, found, ?_⟩))
            · exact fun _ => ⟨context, context_, rfl⟩
            · intro isLines
              cases isLines
            · intro inOrder
              cases inOrder
          | ok result =>
            cases result with
            | none => exact .inl rfl
            | some index =>
              obtain ⟨strictness, site⟩ := seekSequence_found nonempty whole
              refine .inr (.inr (.inl ⟨index, rfl, windowAt_of_sites site, ?_, relocates⟩))
              exact before_of_none nonempty ahead site
        · exact .inl rfl

/-- What the search for the old lines of a chunk without an anchor finds. -/
theorem searchLines_spec {located : Located}
    (nonempty : (matcher.chunk chunkIndex).oldLines ≠ [])
    (free : (matcher.chunk chunkIndex).changeContext = none)
    (found : matcher.searchLines chunkIndex cursor relocate = .ok located) :
    (∃ start, located = .site ⟨none, start⟩ ∧ cursor.lineIndex ≤ start ∧
      WindowAt matcher.originalLines (matcher.chunk chunkIndex).oldLines start) ∨
    (∃ start, located = .relocated ⟨none, start⟩ ∧ start < cursor.lineIndex ∧
      WindowAt matcher.originalLines (matcher.chunk chunkIndex).oldLines start ∧
        cursor.anchored = true ∧ relocate = true) ∨
    (∃ ambiguity, located = .ambiguous ambiguity ∧
      AmbiguityOf matcher chunkIndex cursor ambiguity) := by
  have atEnd : ∀ {from_ anchored index}, seekSequence matcher.originalLines
      (matcher.chunk chunkIndex).oldLines from_ (matcher.chunk chunkIndex).isEndOfFile anchored =
        .ok (some index) → (!(matcher.chunk chunkIndex).isEndOfFile ||
          index + (matcher.chunk chunkIndex).oldLines.length == matcher.originalLines.length) =
            true := by
    intro from_ anchored index sought
    obtain ⟨strictness, site⟩ := seekSequence_found nonempty sought
    have bounds := mem_windows.mp (mem_sites.mp site).1
    cases atEof : (matcher.chunk chunkIndex).isEndOfFile with
    | false => rfl
    | true => simpa using bounds.2.2 atEof
  have ambiguityOf : ∀ {from_ anchored error outOfOrderAfter}, seekSequence matcher.originalLines
      (matcher.chunk chunkIndex).oldLines from_ (matcher.chunk chunkIndex).isEndOfFile anchored =
        .error error → (outOfOrderAfter = none → from_ = cursor.lineIndex ∧
          cursor.anchored = false) →
      AmbiguityOf matcher chunkIndex cursor ⟨error, (matcher.chunk chunkIndex).oldLines, false,
        from_, (matcher.chunk chunkIndex).isEndOfFile, outOfOrderAfter⟩ := by
    intro from_ anchored error outOfOrderAfter sought start
    refine ⟨nonempty, ?_, fun _ => ⟨free, rfl⟩, (seekSequence_error nonempty sought).2, start⟩
    intro isContext
    cases isContext
  unfold searchLines at found
  simp only at found
  cases ahead : seekSequence matcher.originalLines (matcher.chunk chunkIndex).oldLines
      cursor.lineIndex (matcher.chunk chunkIndex).isEndOfFile cursor.anchored with
  | error error =>
    rw [ahead] at found
    obtain rfl := Except.ok.inj found
    exact .inr (.inr ⟨_, rfl, ambiguityOf ahead fun _ =>
      ⟨rfl, (seekSequence_error nonempty ahead).1⟩⟩)
  | ok result =>
    rw [ahead] at found
    cases result with
    | some index =>
      simp only [atEnd ahead, if_true] at found
      obtain rfl := Except.ok.inj found
      obtain ⟨strictness, site⟩ := seekSequence_found nonempty ahead
      exact .inl ⟨index, rfl, (mem_windows.mp (mem_sites.mp site).1).2.1, windowAt_of_sites site⟩
    | none =>
      simp only at found
      split at found
      next relocates =>
        rw [Bool.and_eq_true] at relocates
        cases whole : seekSequence matcher.originalLines (matcher.chunk chunkIndex).oldLines 0
            (matcher.chunk chunkIndex).isEndOfFile false with
        | error error =>
          rw [whole] at found
          obtain rfl := Except.ok.inj found
          refine .inr (.inr ⟨_, rfl, ambiguityOf whole ?_⟩)
          intro inOrder
          cases inOrder
        | ok result =>
          rw [whole] at found
          cases result with
          | none => cases found
          | some index =>
            simp only [atEnd whole, if_true] at found
            obtain rfl := Except.ok.inj found
            obtain ⟨strictness, site⟩ := seekSequence_found nonempty whole
            refine .inr (.inl ⟨index, rfl, ?_, windowAt_of_sites site, relocates⟩)
            exact before_of_none nonempty ahead site
      · cases found

variable {site : ChunkSite} {ambiguity : Ambiguity}

/-- The site of a chunk whose anchor was found. -/
theorem anchoredSite_spec {context : Text} {index : Nat}
    (context_ : (matcher.chunk chunkIndex).changeContext = some context)
    (window : WindowAt matcher.originalLines [context] index)
    (found : matcher.anchoredSite chunkIndex index = some site) :
    SiteOf matcher chunkIndex site ∧ (matcher.claim chunkIndex site).start = index ∧
      matcher.bareAddition chunkIndex site = false := by
  unfold anchoredSite at found
  split at found
  next bare =>
    obtain rfl := Option.some_inj.mp found
    rw [List.isEmpty_iff] at bare
    refine ⟨⟨?_, ?_, fun lines => absurd bare lines, ?_⟩, rfl, rfl⟩
    · intro anchor same
      obtain rfl := Option.some_inj.mp same
      exact ⟨rfl, context, context_, window⟩
    · intro none_
      cases none_
    · intro _ none_
      cases none_
  next lines =>
    rw [List.isEmpty_iff] at lines
    obtain ⟨start, following, rfl⟩ := Option.map_eq_some_iff.mp found
    obtain ⟨rfl, linesWindow⟩ := followingAnchor_spec lines following
    refine ⟨⟨?_, ?_, fun _ => linesWindow, fun bare _ => absurd bare lines⟩, rfl, rfl⟩
    · intro anchor same
      obtain rfl := Option.some_inj.mp same
      exact ⟨rfl, context, context_, window⟩
    · intro none_
      cases none_

/-- The results of `locate`: a site at or after the previous match, one before it, or an
    ambiguity. -/
theorem locate_spec {located : Located}
    (found : matcher.locate chunkIndex cursor relocate = .ok located) :
    (∃ site, located = .site site ∧ SiteOf matcher chunkIndex site ∧
      (matcher.bareAddition chunkIndex site = true ∨
        cursor.lineIndex ≤ (matcher.claim chunkIndex site).start)) ∨
    (∃ site, located = .relocated site ∧ SiteOf matcher chunkIndex site ∧
      (matcher.claim chunkIndex site).start < cursor.lineIndex ∧ cursor.anchored = true ∧
        matcher.bareAddition chunkIndex site = false) ∨
    (∃ ambiguity, located = .ambiguous ambiguity ∧
      AmbiguityOf matcher chunkIndex cursor ambiguity) := by
  unfold locate at found
  simp only at found
  rcases matcher.searchAnchor_spec chunkIndex cursor relocate with
    ⟨absent, free⟩ | ⟨context, context_, missing | ⟨index, ahead, window, after⟩ |
      ⟨index, relocated, window, before, anchored, relocates⟩ | ⟨ambiguity, ambiguous, of⟩⟩
  · rw [absent] at found
    simp only at found
    split at found
    next bare =>
      obtain rfl := Except.ok.inj found
      rw [List.isEmpty_iff] at bare
      refine .inl ⟨_, rfl, ⟨?_, fun _ => free, fun lines => absurd bare lines, fun _ _ => rfl⟩, ?_⟩
      · intro index some_
        cases some_
      · exact .inl (by simp [bareAddition, bare])
    next lines =>
      rw [List.isEmpty_iff] at lines
      have siteOf : ∀ start, WindowAt matcher.originalLines (matcher.chunk chunkIndex).oldLines
          start → SiteOf matcher chunkIndex ⟨none, start⟩ := by
        intro start window
        refine ⟨?_, fun _ => free, fun _ => window, fun bare _ => absurd bare lines⟩
        intro index some_
        cases some_
      rcases searchLines_spec lines free found with ⟨start, rfl, after, window⟩ |
        ⟨start, rfl, before, window, anchored, _⟩ | ambiguous
      · exact .inl ⟨_, rfl, siteOf start window, .inr after⟩
      · refine .inr (.inl ⟨_, rfl, siteOf start window, before, anchored, ?_⟩)
        simpa [bareAddition] using lines
      · exact .inr (.inr ambiguous)
  · rw [missing] at found
    cases found
  · rw [ahead] at found
    simp only at found
    split at found
    next site anchoredSite =>
      obtain rfl := Except.ok.inj found
      obtain ⟨siteOf, claim, _⟩ := anchoredSite_spec context_ window anchoredSite
      exact .inl ⟨site, rfl, siteOf, .inr (claim ▸ after)⟩
    · cases found
  · rw [relocated] at found
    simp only at found
    split at found
    next site anchoredSite =>
      obtain rfl := Except.ok.inj found
      obtain ⟨siteOf, claim, notBare⟩ := anchoredSite_spec context_ window anchoredSite
      exact .inr (.inl ⟨site, rfl, siteOf, claim ▸ before, anchored, notBare⟩)
    · cases found
  · rw [ambiguous] at found
    obtain rfl := Except.ok.inj found
    exact .inr (.inr ⟨ambiguity, rfl, of⟩)

/-- The candidates of an ambiguity are the windows of its tier, up to the report limit. -/
theorem AmbiguityOf.candidateStarts_eq (of : AmbiguityOf matcher chunkIndex cursor ambiguity) :
    matcher.candidateStarts ambiguity = (sites matcher.originalLines ambiguity.pattern
      ambiguity.start ambiguity.eof ambiguity.error.strictness).take
        (AMBIGUITY_REPORT_LIMIT + 1) := by
  obtain ⟨first, second, rest, found, _, _⟩ := of.found
  unfold candidateStarts
  simp only
  rw [ambiguousCandidates_eq of.nonempty, found, if_neg]
  · rfl
  · simp [AMBIGUITY_REPORT_LIMIT]

/-- A candidate with a site is a site of the chunk, at or after the start of the search. -/
theorem AmbiguityOf.candidateSite_spec {candidate : Nat}
    (of : AmbiguityOf matcher chunkIndex cursor ambiguity)
    (listed : candidate ∈ matcher.candidateStarts ambiguity)
    (found : matcher.candidateSite chunkIndex ambiguity candidate = some site) :
    SiteOf matcher chunkIndex site ∧ (matcher.claim chunkIndex site).start = candidate ∧
      ambiguity.start ≤ candidate ∧ matcher.bareAddition chunkIndex site = false := by
  rw [of.candidateStarts_eq] at listed
  have isSite := List.mem_of_mem_take listed
  have window := windowAt_of_sites isSite
  have after := (mem_windows.mp (mem_sites.mp isSite).1).2.1
  unfold candidateSite at found
  split at found
  next isLines =>
    obtain rfl := Option.some_inj.mp found
    obtain ⟨free, pattern⟩ := of.lines (by simpa using isLines)
    have nonempty := of.nonempty
    rw [pattern] at window nonempty
    refine ⟨⟨?_, fun _ => free, fun _ => window, fun bare _ => absurd bare nonempty⟩, rfl, after, ?_⟩
    · intro index some_
      cases some_
    · simpa [bareAddition] using nonempty
  next isContext =>
    obtain ⟨context, context_, pattern⟩ := of.context (by simpa using isContext)
    rw [pattern] at window
    obtain ⟨siteOf, claim, notBare⟩ := anchoredSite_spec context_ window found
    exact ⟨siteOf, claim, after, notBare⟩

/-- A site that the matcher may place a chunk at: one that `locate` finds, or a candidate of an
    ambiguity. -/
inductive MayPlace (matcher : ChunkMatcher) (chunkIndex : Nat) (site : ChunkSite) : Prop where
  | listed (cursor : ChunkCursor) (relocate : Bool)
      (located : matcher.locate chunkIndex cursor relocate = .ok (.site site))
  | relocated (cursor : ChunkCursor) (relocate : Bool)
      (located : matcher.locate chunkIndex cursor relocate = .ok (.relocated site))
  | candidate (cursor : ChunkCursor) (relocate : Bool) (ambiguity : Ambiguity) (candidate : Nat)
      (located : matcher.locate chunkIndex cursor relocate = .ok (.ambiguous ambiguity))
      (among : candidate ∈ matcher.candidateStarts ambiguity)
      (found : matcher.candidateSite chunkIndex ambiguity candidate = some site)

theorem locate_ambiguous
    (located : matcher.locate chunkIndex cursor relocate = .ok (.ambiguous ambiguity)) :
    AmbiguityOf matcher chunkIndex cursor ambiguity := by
  rcases locate_spec located with ⟨other, same, _⟩ | ⟨other, same, _⟩ | ⟨other, same, of⟩
  · cases same
  · cases same
  · rwa [Located.ambiguous.inj same]

theorem MayPlace.siteOf (may : MayPlace matcher chunkIndex site) :
    SiteOf matcher chunkIndex site := by
  cases may with
  | listed cursor relocate located =>
    rcases locate_spec located with ⟨other, same, siteOf, _⟩ | ⟨other, same, _⟩ | ⟨other, same, _⟩
    · rwa [Located.site.inj same]
    · cases same
    · cases same
  | relocated cursor relocate located =>
    rcases locate_spec located with ⟨other, same, _⟩ | ⟨other, same, siteOf, _⟩ | ⟨other, same, _⟩
    · cases same
    · rwa [Located.relocated.inj same]
    · cases same
  | candidate cursor relocate ambiguity candidate located among found =>
    exact ((locate_ambiguous located).candidateSite_spec among found).1

/-- The span that a chunk claims at a site is a window of its anchor and its old lines. -/
theorem SiteOf.window (siteOf : SiteOf matcher chunkIndex site)
    (nonempty : siteLines (matcher.chunk chunkIndex) ≠ []) :
    WindowAt matcher.originalLines (siteLines (matcher.chunk chunkIndex))
        (matcher.claim chunkIndex site).start ∧
      (matcher.claim chunkIndex site).stop = (matcher.claim chunkIndex site).start +
        (siteLines (matcher.chunk chunkIndex)).length := by
  unfold siteLines at nonempty ⊢
  cases anchor : site.anchor with
  | none =>
    rw [siteOf.free anchor] at nonempty ⊢
    simp only [Option.toList_none, List.nil_append, ne_eq] at nonempty ⊢
    simp only [claim, anchor, Option.getD_none]
    exact ⟨siteOf.lines nonempty, trivial⟩
  | some index =>
    obtain ⟨after, context, context_, window⟩ := siteOf.anchor index anchor
    rw [context_]
    simp only [claim, anchor, Option.getD_some, Option.toList_some, List.length_append,
      List.length_singleton]
    refine ⟨?_, by omega⟩
    by_cases bare : (matcher.chunk chunkIndex).oldLines = []
    · rw [bare, List.append_nil]
      exact window
    · have lines := siteOf.lines bare
      rw [after] at lines
      exact window.append lines

end ChunkMatcher

end Codex.ApplyPatch
