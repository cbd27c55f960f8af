import Codex.ApplyPatch.ChunkRuns

/-!
# Replacements of a hunk

The replacements that matching the chunks of one hunk gives (`apply-patch/src/lib.rs`): they are
disjoint and within the source, and those with one start are in the file order of their chunks.
The spans that chunks claim carry this: they never overlap, and the matcher has reached the end of
the furthest.
-/

namespace Codex.ApplyPatch

open Codex.Text Codex.Splice

/-- The end of `DiffOp::old_range`. -/
def DiffOp.oldStop (operation : DiffOp) : Nat := operation.oldStart + operation.oldLen

/-- The operations cover the lines of both sides from two positions on, one after the other. -/
def Covers (oldLen newLen : Nat) : Nat → Nat → List DiffOp → Prop
  | oldIndex, newIndex, [] => oldIndex = oldLen ∧ newIndex = newLen
  | oldIndex, newIndex, operation :: rest =>
      operation.oldStart = oldIndex ∧ operation.newStart = newIndex ∧
        Covers oldLen newLen (oldIndex + operation.oldLen) (newIndex + operation.newLen) rest

/-- What `similar::capture_diff_slices` promises: its operations cover both slices. -/
def DiffCovers (diffSlices : List Text → List Text → List DiffOp) : Prop :=
  ∀ old new, Covers old.length new.length 0 0 (diffSlices old new)

/-- The operations are in order, and within the old lines. -/
structure OrderedWithin (oldLen : Nat) (operations : List DiffOp) : Prop where
  ordered : operations.Pairwise fun first second => first.oldStop ≤ second.oldStart
  within : ∀ operation ∈ operations, operation.oldStop ≤ oldLen

variable {oldLen newLen count : Nat} {claimed : List ClaimedSpan} {writes : Nat → List Replacement}
   {matcher : ChunkMatcher} {cursor : ChunkCursor}

theorem Covers.after {oldIndex newIndex : Nat} {operations : List DiffOp}
    (covers : Covers oldLen newLen oldIndex newIndex operations) :
    oldIndex ≤ oldLen ∧ ∀ operation ∈ operations, oldIndex ≤ operation.oldStart := by
  induction operations generalizing oldIndex newIndex with
  | nil => exact ⟨covers.1.le, by simp⟩
  | cons operation rest ih =>
    obtain ⟨start, _, later⟩ := covers
    obtain ⟨inside, after⟩ := ih later
    refine ⟨by omega, ?_⟩
    intro other member
    rcases List.mem_cons.mp member with rfl | old
    · exact start.ge
    · have := after other old
      omega

theorem Covers.orderedWithin {oldIndex newIndex : Nat} {operations : List DiffOp}
    (covers : Covers oldLen newLen oldIndex newIndex operations) :
    OrderedWithin oldLen operations := by
  induction operations generalizing oldIndex newIndex with
  | nil => exact ⟨List.Pairwise.nil, by simp⟩
  | cons operation rest ih =>
    obtain ⟨start, _, later⟩ := covers
    obtain ⟨ordered, within⟩ := ih later
    obtain ⟨inside, after⟩ := later.after
    refine ⟨List.pairwise_cons.mpr ⟨?_, ordered⟩, ?_⟩
    · intro other member
      have := after other member
      rw [DiffOp.oldStop]
      omega
    · intro other member
      rcases List.mem_cons.mp member with rfl | old
      · rw [DiffOp.oldStop, start]
        exact inside
      · exact within other old

@[simp] theorem groupOperation_oldStart (oldIndex oldLen newIndex newLen : Nat) :
    (groupOperation oldIndex oldLen newIndex newLen).oldStart = oldIndex := by
  unfold groupOperation
  split
  · rfl
  · split <;> rfl

@[simp] theorem groupOperation_oldLen (oldIndex oldLen newIndex newLen : Nat) :
    (groupOperation oldIndex oldLen newIndex newLen).oldLen = oldLen := by
  unfold groupOperation
  split
  next none_ => exact none_.symm
  · split <;> rfl

/-- The state of the loop: its operations are in order and end before the open group. -/
structure EditGroups.OrderedWithin (oldLen : Nat) (state : EditGroups) : Prop where
  operations : ApplyPatch.OrderedWithin oldLen state.operations
  opened : ∀ group, state.group = some group → group.1 ≤ state.old
  before : ∀ operation ∈ state.operations,
    operation.oldStop ≤ (state.group.map Prod.fst).getD state.old

theorem EditGroups.step_orderedWithin {state after : EditGroups} {kind : UpdateLineKind}
    (inOrder : state.OrderedWithin oldLen)
    (stepped : state.step oldLen newLen kind = some after) : after.OrderedWithin oldLen := by
  obtain ⟨⟨ordered, within⟩, opened, before⟩ := inOrder
  cases kind with
  | context =>
    simp only [EditGroups.step] at stepped
    cases group : state.group with
    | none =>
      rw [group] at stepped before
      obtain rfl := Option.some_inj.mp stepped
      refine ⟨⟨ordered, within⟩, by simp, ?_⟩
      intro operation member
      have := before operation member
      simp only [Option.map_none, Option.getD_none] at this ⊢
      omega
    | some bounds =>
      obtain ⟨oldIndex, newIndex⟩ := bounds
      have start := opened _ group
      rw [group] at stepped before
      simp only [Option.map_some, Option.getD_some] at stepped before start
      split at stepped
      · cases stepped
      next inside =>
        obtain rfl := Option.some_inj.mp stepped
        refine ⟨⟨List.pairwise_append.mpr ⟨ordered, List.pairwise_singleton _ _, ?_⟩, ?_⟩,
          by simp, ?_⟩
        · intro operation member last isLast
          obtain rfl := List.mem_singleton.mp isLast
          rw [groupOperation_oldStart]
          exact before operation member
        · intro operation member
          rcases List.mem_append.mp member with old | isLast
          · exact within operation old
          · obtain rfl := List.mem_singleton.mp isLast
            simp only [DiffOp.oldStop, groupOperation_oldStart, groupOperation_oldLen]
            omega
        intro operation member
        simp only [Option.map_none, Option.getD_none]
        rcases List.mem_append.mp member with old | isLast
        · have := before operation old
          omega
        · obtain rfl := List.mem_singleton.mp isLast
          simp only [DiffOp.oldStop, groupOperation_oldStart, groupOperation_oldLen]
          omega
  | add =>
    obtain rfl := Option.some_inj.mp stepped
    refine ⟨⟨ordered, within⟩, ?_, ?_⟩
    · intro group same
      obtain rfl := Option.some_inj.mp same
      cases group : state.group with
      | none => simp
      | some bounds => simpa using opened _ group
    · intro operation member
      have := before operation member
      cases group : state.group <;> simpa [group] using this
  | remove =>
    obtain rfl := Option.some_inj.mp stepped
    refine ⟨⟨ordered, within⟩, ?_, ?_⟩
    · intro group same
      obtain rfl := Option.some_inj.mp same
      cases group : state.group with
      | none => simp
      | some bounds =>
        have := opened _ group
        simp only [Option.getD_some]
        omega
    · intro operation member
      have := before operation member
      cases group : state.group <;> simpa [group] using this

theorem EditGroups.foldlM_orderedWithin {kinds : List UpdateLineKind} {state after : EditGroups}
    (inOrder : state.OrderedWithin oldLen)
    (run : kinds.foldlM (EditGroups.step oldLen newLen) state = some after) :
    after.OrderedWithin oldLen := by
  induction kinds generalizing state with
  | nil =>
    obtain rfl := Option.some_inj.mp run
    exact inOrder
  | cons kind rest ih =>
    rw [List.foldlM_cons] at run
    obtain ⟨middle, stepped, later⟩ := Option.bind_eq_some_iff.mp run
    exact ih (EditGroups.step_orderedWithin inOrder stepped) later

section

variable {diffSlices : List Text → List Text → List DiffOp} {chunk : UpdateFileChunk}
  {operations : List DiffOp}

theorem chunkEditOperations_orderedWithin_of_kinds (kinds : chunk.lineKinds.isEmpty = false)
    (edited : chunkEditOperations diffSlices chunk = some operations) :
    OrderedWithin chunk.oldLines.length operations := by
  unfold chunkEditOperations at edited
  rw [if_neg (by simp [kinds])] at edited
  split at edited
  · cases edited
  next state run =>
    split at edited
    · cases edited
    · obtain rfl := Option.some_inj.mp edited
      have start : EditGroups.OrderedWithin chunk.oldLines.length {} :=
        ⟨⟨List.Pairwise.nil, by simp⟩, by simp, by simp⟩
      exact (EditGroups.foldlM_orderedWithin start run).operations

theorem chunkEditOperations_orderedWithin (covers : DiffCovers diffSlices)
    (edited : chunkEditOperations diffSlices chunk = some operations) :
    OrderedWithin chunk.oldLines.length operations := by
  cases kinds : chunk.lineKinds.isEmpty with
  | false => exact chunkEditOperations_orderedWithin_of_kinds kinds edited
  | true =>
    unfold chunkEditOperations at edited
    rw [if_pos kinds] at edited
    obtain rfl := Option.some_inj.mp edited
    exact (covers chunk.oldLines chunk.newLines).orderedWithin

end

/-- The end of the furthest span. -/
def furthest (claimed : List ClaimedSpan) : Nat := (claimed.map ClaimedSpan.stop).foldr max 0

theorem le_furthest {claim : ClaimedSpan} (member : claim ∈ claimed) :
    claim.stop ≤ furthest claimed := by
  induction claimed with
  | nil => cases member
  | cons first rest ih =>
    change claim.stop ≤ max first.stop (furthest rest)
    rcases List.mem_cons.mp member with rfl | old
    · exact le_max_left _ _
    · exact (ih old).trans (le_max_right _ _)

theorem furthest_le {bound : Nat}
    (bounded : ∀ claim ∈ claimed, claim.stop ≤ bound) : furthest claimed ≤ bound := by
  induction claimed with
  | nil => exact Nat.zero_le _
  | cons first rest ih =>
    change max first.stop (furthest rest) ≤ bound
    exact max_le (bounded first List.mem_cons_self)
      (ih fun claim member => bounded claim (List.mem_cons_of_mem _ member))

/-- Something claimed reaches past a line before the furthest end. -/
theorem exists_of_lt_furthest {line : Nat}
    (before : line < furthest claimed) : ∃ claim ∈ claimed, claim.stop = furthest claimed := by
  induction claimed with
  | nil => cases before
  | cons first rest ih =>
    change line < max first.stop (furthest rest) at before
    change ∃ claim ∈ first :: rest, claim.stop = max first.stop (furthest rest)
    rcases le_total (furthest rest) first.stop with least | most
    · exact ⟨first, List.mem_cons_self, (max_eq_left least).symm⟩
    · rw [max_eq_right most] at before ⊢
      obtain ⟨claim, member, stop⟩ := ih before
      exact ⟨claim, List.mem_cons_of_mem _ member, stop⟩

theorem furthest_append (claimed later : List ClaimedSpan) :
    furthest (claimed ++ later) = max (furthest claimed) (furthest later) := by
  induction claimed with
  | nil => exact (Nat.zero_max _).symm
  | cons first rest ih =>
    change max first.stop (furthest (rest ++ later)) =
      max (max first.stop (furthest rest)) (furthest later)
    rw [ih, max_assoc]

/-- The span that a chunk claimed. -/
def claimOf (claimed : List ClaimedSpan) (chunkIndex : Nat) : Option ClaimedSpan :=
  claimed.find? fun claim => claim.chunkOrdinal == chunkIndex + 1

/-- The position of a chunk in the file: the start of its span. A bare addition is where in-order
    matching had reached when it was listed. -/
def filePosition (claimed : List ClaimedSpan) (chunkIndex : Nat) : Nat :=
  match claimOf claimed chunkIndex with
  | some claim => claim.start
  | none => furthest (claimed.filter fun claim => decide (claim.chunkOrdinal ≤ chunkIndex))

/-- The file order of chunks; those at one position are in listed order. -/
def FileBefore (claimed : List ClaimedSpan) (first second : Nat) : Prop :=
  filePosition claimed first < filePosition claimed second ∨
    (filePosition claimed first = filePosition claimed second ∧ first ≤ second)

namespace ChunkMatcher

variable {matcher : ChunkMatcher} {chunkIndex : Nat} {cursor after : ChunkCursor}

/-- The replacements of a chunk: a range replaces what it claims, a textual chunk what it changes
    at its site, and a bare addition is at the end of the source. -/
inductive Writes (matcher : ChunkMatcher) (claimed : List ClaimedSpan) (chunkIndex : Nat) :
    List Replacement → Prop where
  | range (claim : ClaimedSpan) (handle : Text)
      (isRange : (matcher.chunk chunkIndex).changeContext.bind (stripPrefix CODEX_RANGE) =
        some handle)
      (member : claim ∈ claimed) (ordinal : claim.chunkOrdinal = chunkIndex + 1) :
      Writes matcher claimed chunkIndex [⟨claim.start, claim.stop - claim.start,
        (matcher.chunk chunkIndex).newLines, claim.start⟩]
  | site (site : ChunkSite) (replacements : List Replacement)
      (may : MayPlace matcher chunkIndex site)
      (claims : matcher.bareAddition chunkIndex site = false)
      (member : matcher.claim chunkIndex site ∈ claimed)
      (contributes : Contributes matcher chunkIndex site (matcher.claim chunkIndex site).start
        replacements) :
      Writes matcher claimed chunkIndex replacements
  | bare (site : ChunkSite) (may : MayPlace matcher chunkIndex site)
      (bare : matcher.bareAddition chunkIndex site = true)
      (claimsNone : ∀ claim ∈ claimed, claim.chunkOrdinal ≠ chunkIndex + 1) :
      Writes matcher claimed chunkIndex [⟨matcher.originalLines.length, 0,
        (matcher.chunk chunkIndex).newLines, furthest (claimed.filter fun claim =>
          decide (claim.chunkOrdinal ≤ chunkIndex))⟩]

/-- What holds of a cursor before a chunk: the spans are within the source and do not overlap, in
    the listed order of their chunks; the matcher has reached the end of the furthest; and the
    replacements are those of the chunks before. -/
structure Placed (matcher : ChunkMatcher) (chunkIndex : Nat) (cursor : ChunkCursor) : Prop where
  spans : ∀ claim ∈ cursor.claimed, claim.start < claim.stop ∧
    claim.stop ≤ matcher.originalLines.length ∧ claim.chunkOrdinal ≤ chunkIndex
  apart : cursor.claimed.Pairwise fun first second =>
    first.stop ≤ second.start ∨ second.stop ≤ first.start
  ordinals : cursor.claimed.Pairwise fun first second => first.chunkOrdinal < second.chunkOrdinal
  reached : cursor.lineIndex = furthest cursor.claimed
  written : ∃ writes : Nat → List Replacement,
    cursor.replacements = (List.range chunkIndex).flatMap writes ∧
      ∀ index < chunkIndex, Writes matcher cursor.claimed index (writes index)

/-- A span of a later chunk does not change what a chunk writes. -/
theorem Writes.append {replacements : List Replacement} {claim : ClaimedSpan}
    (writes : Writes matcher claimed chunkIndex replacements)
    (later : chunkIndex + 1 < claim.chunkOrdinal) :
    Writes matcher (claimed ++ [claim]) chunkIndex replacements := by
  cases writes with
  | range own handle isRange member ordinal =>
    exact .range own handle isRange (List.mem_append_left _ member) ordinal
  | site site replacements may claims member contributes =>
    exact .site site replacements may claims (List.mem_append_left _ member) contributes
  | bare site may bare claimsNone =>
    have same : (claimed ++ [claim]).filter (fun other => decide (other.chunkOrdinal ≤ chunkIndex)) =
        claimed.filter fun other => decide (other.chunkOrdinal ≤ chunkIndex) := by
      have past : ¬ claim.chunkOrdinal ≤ chunkIndex := by omega
      simp [past]
    rw [← same]
    refine .bare site may bare ?_
    intro other member
    rcases List.mem_append.mp member with old | new
    · exact claimsNone other old
    · rw [List.mem_singleton.mp new]
      omega

/-- The replacements of one more chunk. -/
theorem written_succ {replacements new : List Replacement}
    (written : ∃ writes : Nat → List Replacement,
      replacements = (List.range chunkIndex).flatMap writes ∧
        ∀ index < chunkIndex, Writes matcher claimed index (writes index))
    (own : Writes matcher claimed chunkIndex new) :
    ∃ writes : Nat → List Replacement,
      replacements ++ new = (List.range (chunkIndex + 1)).flatMap writes ∧
        ∀ index < chunkIndex + 1, Writes matcher claimed index (writes index) := by
  obtain ⟨writes, rfl, each⟩ := written
  refine ⟨fun index => if index = chunkIndex then new else writes index, ?_, ?_⟩
  · rw [List.range_succ, List.flatMap_append, List.flatMap_singleton, if_pos rfl]
    congr 1
    refine List.flatMap_congr ?_
    intro index member
    rw [if_neg (Nat.ne_of_lt (List.mem_range.mp member))]
  · intro index bound
    simp only
    split
    next same => exact same ▸ own
    next other => exact each index (by omega)

/-- A chunk that claims a span which overlaps no other. -/
theorem Placed.claim {claim : ClaimedSpan} {new : List Replacement}
    (placed : Placed matcher chunkIndex cursor) (ordinal : claim.chunkOrdinal = chunkIndex + 1)
    (nonempty : claim.start < claim.stop) (inside : claim.stop ≤ matcher.originalLines.length)
    (apart : ∀ other ∈ cursor.claimed, other.stop ≤ claim.start ∨ claim.stop ≤ other.start)
    (replacements : after.replacements = cursor.replacements ++ new)
    (claimed : after.claimed = cursor.claimed ++ [claim])
    (reached : after.lineIndex = max cursor.lineIndex claim.stop)
    (own : Writes matcher (cursor.claimed ++ [claim]) chunkIndex new) :
    Placed matcher (chunkIndex + 1) after := by
  refine ⟨?_, ?_, ?_, ?_, ?_⟩
  · intro other member
    rw [claimed] at member
    rcases List.mem_append.mp member with old | isNew
    · obtain ⟨first, second, third⟩ := placed.spans other old
      exact ⟨first, second, by omega⟩
    · rw [List.mem_singleton.mp isNew]
      exact ⟨nonempty, inside, ordinal.le⟩
  · rw [claimed]
    refine List.pairwise_append.mpr ⟨placed.apart, List.pairwise_singleton _ _, ?_⟩
    intro other member last isLast
    rw [List.mem_singleton.mp isLast]
    exact apart other member
  · rw [claimed]
    refine List.pairwise_append.mpr ⟨placed.ordinals, List.pairwise_singleton _ _, ?_⟩
    intro other member last isLast
    rw [List.mem_singleton.mp isLast, ordinal]
    exact Nat.lt_succ_of_le (placed.spans other member).2.2
  · rw [claimed, reached, furthest_append, placed.reached]
    simp [furthest]
  · rw [claimed, replacements]
    obtain ⟨writes, same, each⟩ := placed.written
    refine written_succ ⟨writes, same, ?_⟩ own
    intro index bound
    exact (each index bound).append (by omega)

variable {site : ChunkSite}

/-- A site that is no bare addition covers lines of the source. -/
theorem SiteOf.claim_inside (siteOf : SiteOf matcher chunkIndex site)
    (claims : matcher.bareAddition chunkIndex site = false) :
    (matcher.claim chunkIndex site).start < (matcher.claim chunkIndex site).stop ∧
      (matcher.claim chunkIndex site).stop ≤ matcher.originalLines.length := by
  have nonempty : siteLines (matcher.chunk chunkIndex) ≠ [] := by
    intro empty
    obtain ⟨context, lines⟩ := List.append_eq_nil_iff.mp empty
    cases anchor : site.anchor with
    | none => simp [bareAddition, anchor, lines] at claims
    | some index =>
      obtain ⟨_, text, context_, _⟩ := siteOf.anchor index anchor
      rw [context_] at context
      cases context
  obtain ⟨window, stop⟩ := siteOf.window nonempty
  have some_ := List.length_pos_iff.mpr nonempty
  have inside := window.inside
  omega

theorem mem_bareAddition (bare : matcher.bareAddition chunkIndex site = true) :
    site.anchor = none ∧ (matcher.chunk chunkIndex).oldLines = [] := by
  simpa [bareAddition] using bare

/-- Placing a chunk that claims its lines. -/
theorem Placed.place_claim {relocated : Bool} (placed : Placed matcher chunkIndex cursor)
    (may : MayPlace matcher chunkIndex site) (claims : matcher.bareAddition chunkIndex site = false)
    (apart : ∀ other ∈ cursor.claimed, other.stop ≤ (matcher.claim chunkIndex site).start ∨
      (matcher.claim chunkIndex site).stop ≤ other.start)
    (reached : if relocated then (matcher.claim chunkIndex site).stop ≤ cursor.lineIndex
      else cursor.lineIndex ≤ (matcher.claim chunkIndex site).stop)
    (put : matcher.place chunkIndex site cursor relocated = .ok after) :
    Placed matcher (chunkIndex + 1) after := by
  obtain ⟨_, new, contributes, replacements, _, claimed⟩ := place_spec put
  obtain ⟨claimed, moved, inOrder⟩ := claimed claims
  obtain ⟨nonempty, inside⟩ := may.siteOf.claim_inside claims
  rw [placeOrder, claims] at contributes
  refine placed.claim rfl nonempty inside apart replacements claimed ?_
    (.site site new may claims (List.mem_append_right _ (List.mem_singleton_self _)) contributes)
  cases relocated with
  | true =>
    rw [(moved rfl).1]
    exact (max_eq_left reached).symm
  | false =>
    rw [(inOrder rfl).1]
    exact (max_eq_right reached).symm

/-- A bare addition claims nothing, and leaves in-order matching where it was. -/
theorem Placed.place_bare {relocated : Bool} (placed : Placed matcher chunkIndex cursor)
    (may : MayPlace matcher chunkIndex site) (bare : matcher.bareAddition chunkIndex site = true)
    (put : matcher.place chunkIndex site cursor relocated = .ok after) :
    Placed matcher (chunkIndex + 1) after := by
  obtain ⟨_, new, contributes, replacements, unclaimed, _⟩ := place_spec put
  obtain ⟨claimed, lineIndex, _⟩ := unclaimed bare
  obtain ⟨anchor, lines⟩ := mem_bareAddition bare
  have earlier : cursor.claimed.filter (fun claim => decide (claim.chunkOrdinal ≤ chunkIndex)) =
      cursor.claimed := by
    refine List.filter_eq_self.mpr ?_
    intro claim member
    exact decide_eq_true (placed.spans claim member).2.2
  have own : Writes matcher cursor.claimed chunkIndex new := by
    have same := contributes.addition lines
    rw [placeOrder, if_pos bare, may.siteOf.bare lines anchor, placed.reached, ← earlier] at same
    rw [same]
    refine .bare site may bare ?_
    intro claim member
    have := (placed.spans claim member).2.2
    omega
  refine ⟨?_, ?_, ?_, ?_, ?_⟩
  · intro claim member
    rw [claimed] at member
    obtain ⟨first, second, third⟩ := placed.spans claim member
    exact ⟨first, second, by omega⟩
  · rw [claimed]
    exact placed.apart
  · rw [claimed]
    exact placed.ordinals
  · rw [claimed, lineIndex]
    exact placed.reached
  · rw [claimed, replacements]
    exact written_succ placed.written own

/-- Every placement keeps the spans apart and the replacements accounted for. -/
theorem keeps_placed (matcher : ChunkMatcher) : Keeps matcher (Placed matcher) := by
  refine ⟨?_, ?_, ?_⟩
  · intro chunkIndex handle cursor after placed _ isRange ranged
    obtain ⟨start, stop, nonempty, inside, ahead, rfl⟩ := matchRange_spec ranged
    refine @Placed.claim _ _ _ _ ⟨start, stop, chunkIndex + 1⟩ _ placed rfl nonempty inside ?_ rfl
      rfl (max_eq_right (ahead.trans nonempty.le)).symm
      (.range ⟨start, stop, chunkIndex + 1⟩ handle isRange
        (List.mem_append_right _ (List.mem_singleton_self _)) rfl)
    intro other member
    left
    have := le_furthest member
    rw [← placed.reached] at this
    exact this.trans ahead
  · intro chunkIndex site cursor after placed _ may ahead put
    cases bare : matcher.bareAddition chunkIndex site with
    | true => exact placed.place_bare may bare put
    | false =>
      rw [bare] at ahead
      have ahead : cursor.lineIndex ≤ (matcher.claim chunkIndex site).start :=
        ahead.resolve_left Bool.false_ne_true
      have nonempty := (may.siteOf.claim_inside bare).1
      refine placed.place_claim may bare ?_ (by simp; omega) put
      intro other member
      left
      have := le_furthest member
      rw [← placed.reached] at this
      exact this.trans ahead
  · intro chunkIndex site cursor after placed _ may behind _ claims put
    have free := (place_spec put).1 rfl
    have apart : ∀ other ∈ cursor.claimed, other.stop ≤ (matcher.claim chunkIndex site).start ∨
        (matcher.claim chunkIndex site).stop ≤ other.start := by
      intro other member
      have := free other member
      omega
    refine placed.place_claim may claims apart ?_ put
    -- the furthest span starts after this one
    rw [placed.reached] at behind ⊢
    obtain ⟨claim, member, stop⟩ := exists_of_lt_furthest behind
    have nonempty := (placed.spans claim member).1
    rcases apart claim member with before | later
    · omega
    · simp only [if_true]
      omega

theorem placed_of_matchFrom (matched : matcher.matchFrom 0 {} = .ok cursor) :
    Placed matcher matcher.chunks.length cursor := by
  have start : Placed matcher 0 {} :=
    ⟨by simp, List.Pairwise.nil, List.Pairwise.nil, rfl, fun _ => [], rfl, by simp⟩
  exact (keeps_placed matcher).matchFrom start (Nat.zero_le _) matched

/-- The operations of the chunks are in order, and within their old lines. -/
def OperationsOrdered (matcher : ChunkMatcher) : Prop :=
  ∀ chunkIndex operations, (matcher.chunk chunkIndex).oldLines ≠ [] →
    chunkEditOperations matcher.diffSlices (matcher.chunk chunkIndex) = some operations →
      OrderedWithin (matcher.chunk chunkIndex).oldLines.length operations

section Order

variable {claimed : List ClaimedSpan} {replacements : List Replacement}

theorem claimOf_eq_some {claim : ClaimedSpan}
    (ordinals : claimed.Pairwise fun first second => first.chunkOrdinal < second.chunkOrdinal)
    (member : claim ∈ claimed) (ordinal : claim.chunkOrdinal = chunkIndex + 1) :
    claimOf claimed chunkIndex = some claim := by
  induction claimed with
  | nil => cases member
  | cons first rest ih =>
    obtain ⟨before, later⟩ := List.pairwise_cons.mp ordinals
    unfold claimOf
    rcases List.mem_cons.mp member with rfl | old
    · exact List.find?_cons_of_pos (by simp [ordinal])
    · have := before claim old
      rw [List.find?_cons_of_neg (by simp; omega)]
      exact ih later old

/-- Where a chunk writes: inside its span, or at the end of the source. -/
def WritesInside (matcher : ChunkMatcher) (claimed : List ClaimedSpan) (chunkIndex : Nat)
    (replacement : Replacement) : Prop :=
  (∃ claim ∈ claimed, claim.chunkOrdinal = chunkIndex + 1 ∧ claim.start = replacement.order ∧
    claim.start ≤ replacement.start ∧
      replacement.start + replacement.oldLen ≤ claim.stop) ∨
  (replacement.start = matcher.originalLines.length ∧ replacement.oldLen = 0 ∧
    ∀ claim ∈ claimed, claim.chunkOrdinal ≠ chunkIndex + 1)

theorem Writes.inside (writes : Writes matcher claimed chunkIndex replacements)
    (inOrder : OperationsOrdered matcher)
    (spans : ∀ claim ∈ claimed, claim.start < claim.stop)
    {replacement : Replacement} (member : replacement ∈ replacements) :
    WritesInside matcher claimed chunkIndex replacement := by
  cases writes with
  | range claim handle isRange claimMember ordinal =>
    obtain rfl := List.mem_singleton.mp member
    have := spans claim claimMember
    exact .inl ⟨claim, claimMember, ordinal, rfl, le_rfl, by simp only; omega⟩
  | bare site may bare claimsNone =>
    obtain rfl := List.mem_singleton.mp member
    exact .inr ⟨rfl, rfl, claimsNone⟩
  | site site _ may claims claimMember contributes =>
    have start : (matcher.claim chunkIndex site).start ≤ site.start := by
      cases anchor : site.anchor with
      | none => simp [claim, anchor]
      | some index =>
        obtain ⟨after, _⟩ := may.siteOf.anchor index anchor
        simp [claim, anchor]
        omega
    by_cases bare : (matcher.chunk chunkIndex).oldLines = []
    · rw [contributes.addition bare] at member
      obtain rfl := List.mem_singleton.mp member
      exact .inl ⟨_, claimMember, rfl, rfl, start, by simp [claim, bare]⟩
    obtain ⟨operations, edited, rfl, _⟩ := contributes.edit bare
    obtain ⟨operation, listed, rfl⟩ := List.mem_map.mp member
    have within := (inOrder chunkIndex operations bare edited).within operation
      (List.mem_of_mem_filter listed)
    refine .inl ⟨_, claimMember, rfl, rfl, start.trans (Nat.le_add_right _ _), ?_⟩
    simp only [opReplacement, claim]
    rw [DiffOp.oldStop] at within
    omega

theorem Writes.ordered (writes : Writes matcher claimed chunkIndex replacements)
    (inOrder : OperationsOrdered matcher) :
    replacements.Pairwise fun first second => first.start + first.oldLen ≤ second.start := by
  cases writes with
  | range claim handle isRange member ordinal => exact List.pairwise_singleton _ _
  | bare site may bare claimsNone => exact List.pairwise_singleton _ _
  | site site _ may claims member contributes =>
    by_cases bare : (matcher.chunk chunkIndex).oldLines = []
    · rw [contributes.addition bare]
      exact List.pairwise_singleton _ _
    obtain ⟨operations, edited, rfl, _⟩ := contributes.edit bare
    rw [List.pairwise_map]
    refine ((inOrder chunkIndex operations bare edited).ordered.filter _).imp ?_
    intro first second before
    simp only [opReplacement]
    rw [DiffOp.oldStop] at before
    omega

/-- The replacements of a chunk sort by its position in the file. -/
theorem Writes.order (writes : Writes matcher claimed chunkIndex replacements)
    (ordinals : claimed.Pairwise fun first second => first.chunkOrdinal < second.chunkOrdinal)
    {replacement : Replacement} (member : replacement ∈ replacements) :
    replacement.order = filePosition claimed chunkIndex := by
  cases writes with
  | range claim handle isRange claimMember ordinal =>
    obtain rfl := List.mem_singleton.mp member
    rw [filePosition, claimOf_eq_some ordinals claimMember ordinal]
  | bare site may bare claimsNone =>
    obtain rfl := List.mem_singleton.mp member
    have unclaimed : claimOf claimed chunkIndex = none := by
      refine List.find?_eq_none.mpr ?_
      intro claim claimMember
      simpa using claimsNone claim claimMember
    rw [filePosition, unclaimed]
  | site site _ may claims claimMember contributes =>
    rw [filePosition, claimOf_eq_some ordinals claimMember rfl]
    by_cases bare : (matcher.chunk chunkIndex).oldLines = []
    · rw [contributes.addition bare] at member
      obtain rfl := List.mem_singleton.mp member
      rfl
    · obtain ⟨operations, edited, rfl, _⟩ := contributes.edit bare
      obtain ⟨operation, listed, rfl⟩ := List.mem_map.mp member
      rfl

/-- The replacements of the chunks before an index, each with its chunk, as they are pushed. -/
def pushed (writes : Nat → List Replacement) (count : Nat) : List (Nat × Replacement) :=
  (List.range count).flatMap fun chunkIndex => (writes chunkIndex).map (Prod.mk chunkIndex)

theorem mem_pushed {entry : Nat × Replacement} :
    entry ∈ pushed writes count ↔ entry.1 < count ∧ entry.2 ∈ writes entry.1 := by
  obtain ⟨chunkIndex, replacement⟩ := entry
  simp only [pushed, List.mem_flatMap, List.mem_range, List.mem_map, Prod.mk.injEq]
  constructor
  · rintro ⟨index, bound, written, member, rfl, rfl⟩
    exact ⟨bound, member⟩
  · rintro ⟨bound, member⟩
    exact ⟨chunkIndex, bound, replacement, member, rfl, rfl⟩

theorem map_snd_pushed (writes : Nat → List Replacement) (count : Nat) :
    (pushed writes count).map Prod.snd = (List.range count).flatMap writes := by
  simp [pushed, List.map_flatMap, Function.comp_def]

/-- The key of the sort, on replacements with their chunks. -/
def entryLe (first second : Nat × Replacement) : Bool := first.2.le second.2

theorem entryLe_iff {first second : Nat × Replacement} : entryLe first second = true ↔
    first.2.start < second.2.start ∨
      (first.2.start = second.2.start ∧ first.2.order ≤ second.2.order) := by
  rw [entryLe, Replacement.le, decide_eq_true_iff]

theorem entryLe_trans (first second third : Nat × Replacement)
    (before : entryLe first second = true) (after : entryLe second third = true) :
    entryLe first third = true := by
  rw [entryLe_iff] at before after ⊢
  omega

theorem entryLe_total (first second : Nat × Replacement) :
    (entryLe first second || entryLe second first) = true := by
  rw [Bool.or_eq_true, entryLe_iff, entryLe_iff]
  omega

/-- How the replacements of one hunk follow each other in the source. -/
def Follows (claimed : List ClaimedSpan) (first second : Nat × Replacement) : Prop :=
  first.2.start + first.2.oldLen ≤ second.2.start ∧
    (first.2.start = second.2.start → FileBefore claimed first.1 second.1)

/-- Of two replacements of a chunk, the one that starts first ends before the other. -/
theorem Writes.apart (writes : Writes matcher claimed chunkIndex replacements)
    (inOrder : OperationsOrdered matcher) {first second : Replacement}
    (firstMember : first ∈ replacements) (secondMember : second ∈ replacements)
    (before : first.start < second.start) : first.start + first.oldLen ≤ second.start := by
  obtain ⟨i, firstInside, rfl⟩ := List.mem_iff_getElem.mp firstMember
  obtain ⟨j, secondInside, rfl⟩ := List.mem_iff_getElem.mp secondMember
  have ordered := List.pairwise_iff_getElem.mp (writes.ordered inOrder)
  rcases Nat.lt_trichotomy i j with earlier | rfl | later
  · exact ordered i j firstInside secondInside earlier
  · omega
  · have := ordered j i secondInside firstInside later
    omega

/-- Replacements of two chunks that sort in this order do not overlap. -/
theorem apart_of_entryLe {first second : Nat × Replacement}
    (spans : ∀ claim ∈ claimed, claim.start < claim.stop ∧
      claim.stop ≤ matcher.originalLines.length)
    (apart : claimed.Pairwise fun one other => one.stop ≤ other.start ∨ other.stop ≤ one.start)
    (firstInside : WritesInside matcher claimed first.1 first.2)
    (secondInside : WritesInside matcher claimed second.1 second.2)
    (different : first.1 ≠ second.1) (sorted : entryLe first second = true) :
    first.2.start + first.2.oldLen ≤ second.2.start := by
  rw [entryLe_iff] at sorted
  rcases firstInside with ⟨one, oneMember, oneOrdinal, oneOrder, oneStart, oneStop⟩ | atEnd
  · have oneInside := spans one oneMember
    rcases secondInside with ⟨other, otherMember, otherOrdinal, otherOrder, otherStart, otherStop⟩ |
      atEnd
    · have distinct : one ≠ other := by
        rintro rfl
        omega
      have : Std.Symm fun one other : ClaimedSpan =>
          one.stop ≤ other.start ∨ other.stop ≤ one.start := ⟨fun _ _ => Or.symm⟩
      have disjoint := apart.forall oneMember otherMember distinct
      have otherInside := spans other otherMember
      omega
    · have := atEnd.1
      omega
  · have := atEnd.1
    have := atEnd.2.1
    omega

/-- The sorted replacements follow each other. -/
theorem Placed.pairwise_follows (placed : Placed matcher count cursor)
    (inOrder : OperationsOrdered matcher)
    (each : ∀ index < count, Writes matcher cursor.claimed index (writes index)) :
    ((pushed writes count).mergeSort entryLe).Pairwise (Follows cursor.claimed) := by
  have listed : (pushed writes count).Pairwise fun first second => first.1 ≤ second.1 ∧
      (first.1 = second.1 → first.2.start + first.2.oldLen ≤ second.2.start) := by
    refine List.pairwise_flatMap.mpr ⟨?_, ?_⟩
    · intro index member
      rw [List.pairwise_map]
      refine ((each index (List.mem_range.mp member)).ordered inOrder).imp ?_
      exact fun before => ⟨le_rfl, fun _ => before⟩
    · refine List.pairwise_lt_range.imp ?_
      intro one other before first firstMember second secondMember
      obtain ⟨_, _, rfl⟩ := List.mem_map.mp firstMember
      obtain ⟨_, _, rfl⟩ := List.mem_map.mp secondMember
      exact ⟨before.le, fun same => absurd same before.ne⟩
  have sorted := pairwise_mergeSort_ties entryLe_trans entryLe_total listed
  refine sorted.imp_of_mem ?_
  rintro first second firstMember secondMember ⟨before, ties⟩
  obtain ⟨firstBound, firstWritten⟩ := mem_pushed.mp (List.mem_mergeSort.mp firstMember)
  obtain ⟨secondBound, secondWritten⟩ := mem_pushed.mp (List.mem_mergeSort.mp secondMember)
  have firstWrites := each first.1 firstBound
  have secondWrites := each second.1 secondBound
  have firstOrder := firstWrites.order placed.ordinals firstWritten
  have secondOrder := secondWrites.order placed.ordinals secondWritten
  have spans := fun claim member => (placed.spans claim member).1
  refine ⟨?_, ?_⟩
  · by_cases same : first.1 = second.1
    · rcases entryLe_iff.mp before with earlier | ⟨start, order⟩
      · rw [same] at firstWritten
        exact secondWrites.apart inOrder firstWritten secondWritten earlier
      · refine (ties (entryLe_iff.mpr (.inr ⟨start.symm, ?_⟩))).2 same
        rw [firstOrder, secondOrder, same]
    · exact apart_of_entryLe (fun claim member => ⟨spans claim member, (placed.spans claim member).2.1⟩)
        placed.apart (firstWrites.inside inOrder spans firstWritten)
        (secondWrites.inside inOrder spans secondWritten) same before
  intro start
  rcases entryLe_iff.mp before with earlier | ⟨_, order⟩
  · omega
  · rw [firstOrder, secondOrder] at order
    rcases Nat.lt_or_eq_of_le order with earlier | same
    · exact .inl earlier
    · refine .inr ⟨same, (ties (entryLe_iff.mpr (.inr ⟨start.symm, ?_⟩))).1⟩
      rw [firstOrder, secondOrder, same]

/-- Sorting forgets the chunks. -/
theorem sorted_eq (written : cursor.replacements = (List.range count).flatMap writes) :
    ((pushed writes count).mergeSort entryLe).map Prod.snd = cursor.sorted := by
  rw [ChunkCursor.sorted, written, ← map_snd_pushed]
  exact List.map_mergeSort fun _ _ _ _ => rfl

end Order

end ChunkMatcher

open ChunkMatcher

/-- A replacement as an edit of the source. -/
def Replacement.edit (replacement : Replacement) : Splice.Edit Text :=
  (replacement.start, replacement.oldLen, replacement.newLines)

theorem WritesInside.within {chunkIndex : Nat} {replacement : Replacement}
    (inside : WritesInside matcher claimed chunkIndex replacement)
    (spans : ∀ claim ∈ claimed, claim.stop ≤ matcher.originalLines.length) :
    replacement.start + replacement.oldLen ≤ matcher.originalLines.length := by
  rcases inside with ⟨claim, member, _, _, _, stop⟩ | ⟨start, empty, _⟩
  · exact stop.trans (spans claim member)
  · omega

theorem ChunkMatcher.Placed.within (placed : Placed matcher count cursor)
    (inOrder : OperationsOrdered matcher)
    (each : ∀ index < count, Writes matcher cursor.claimed index (writes index)) :
    ∀ entry ∈ (pushed writes count).mergeSort entryLe,
      entry.2.start + entry.2.oldLen ≤ matcher.originalLines.length := by
  intro entry member
  obtain ⟨bound, own⟩ := mem_pushed.mp (List.mem_mergeSort.mp member)
  exact WritesInside.within ((each entry.1 bound).inside inOrder
    (fun claim member => (placed.spans claim member).1) own)
    fun claim member => (placed.spans claim member).2.1

/-- The edits of a cursor are in order, disjoint and within the source. -/
theorem ChunkMatcher.Placed.fits (placed : Placed matcher count cursor)
    (inOrder : OperationsOrdered matcher)
    (each : ∀ index < count, Writes matcher cursor.claimed index (writes index)) :
    Fits matcher.originalLines.length 0
      (((pushed writes count).mergeSort entryLe).map fun entry => entry.2.edit) := by
  refine fits_of_pairwise ?_ ?_ (Nat.zero_le _)
  · rw [List.pairwise_map]
    exact (placed.pairwise_follows inOrder each).imp And.left
  · intro edit member
    obtain ⟨entry, listed, rfl⟩ := List.mem_map.mp member
    exact ⟨Nat.zero_le _, placed.within inOrder each entry listed⟩

theorem intoSortedReplacements_eq
    (written : cursor.replacements = (List.range count).flatMap writes) :
    cursor.intoSortedReplacements =
      ((pushed writes count).mergeSort entryLe).map fun entry => entry.2.edit := by
  rw [ChunkCursor.intoSortedReplacements, ← sorted_eq written, List.map_map]
  rfl

/-- When the chunks of a hunk match, the sorted replacements are those that the chunks push; they
    lie within the source and are disjoint, those with one start are in the file order of their
    chunks, and applying them substitutes their ranges. -/
theorem replacements_well_formed (matcher : ChunkMatcher) (covers : DiffCovers matcher.diffSlices)
    (cursor : ChunkCursor) (matched : matcher.matchFrom 0 {} = .ok cursor) :
    ∃ produced : List (Nat × Replacement),
      (∃ writes : Nat → List Replacement,
        (∀ chunkIndex < matcher.chunks.length,
          Writes matcher cursor.claimed chunkIndex (writes chunkIndex)) ∧
        produced.Perm (pushed writes matcher.chunks.length)) ∧
      cursor.intoSortedReplacements = produced.map (fun entry => entry.2.edit) ∧
      (∀ entry ∈ produced,
        entry.2.start + entry.2.oldLen ≤ matcher.originalLines.length) ∧
      produced.Pairwise (Follows cursor.claimed) ∧
      ∀ lines : List Text, lines.length = matcher.originalLines.length →
        applyReplacements lines cursor.intoSortedReplacements =
          substitute lines 0 cursor.intoSortedReplacements := by
  have placed := placed_of_matchFrom matched
  have inOrder : OperationsOrdered matcher := fun _ _ _ => chunkEditOperations_orderedWithin covers
  obtain ⟨writes, written, each⟩ := placed.written
  have edits := intoSortedReplacements_eq written
  refine ⟨_, ⟨writes, each, List.mergeSort_perm _ _⟩, edits, placed.within inOrder each,
    placed.pairwise_follows inOrder each, ?_⟩
  intro lines length
  refine spliceAll_eq_substitute ?_
  rw [edits, length]
  exact placed.fits inOrder each

/-- A diff that replaces everything. -/
def wholeDiff (old new : List Text) : List DiffOp := [.replace 0 old.length 0 new.length]

theorem wholeDiff_covers : DiffCovers wholeDiff := by
  intro old new
  simp [wholeDiff, Covers, DiffOp.oldStart, DiffOp.newStart, DiffOp.oldLen, DiffOp.newLen]

/-- A bare addition that is listed first, a chunk without marked lines, and one that is relocated
    before it. -/
def mixedChunks : List UpdateFileChunk :=
  [⟨none, [], [['n']], [.add], false⟩,
    ⟨none, [['c']], [['d']], [], false⟩,
    ⟨some ['a'], [], [['b']], [.add], false⟩]

/-- The mixed chunks in a source of two lines. -/
def mixedMatcher : ChunkMatcher :=
  (PreparedSource.new "a\nc\n".toList).matcher id wholeDiff mixedChunks

theorem replacements_well_formed_mixed :
    ∃ produced : List (Nat × Replacement),
      produced.map (fun entry => entry.2.edit) = [(1, 0, [['b']]), (1, 1, [['d']]), (2, 0, [['n']])] ∧
      produced.Pairwise (Follows [⟨1, 2, 2⟩, ⟨0, 1, 3⟩]) := by
  obtain ⟨produced, _, edits, _, follows, _⟩ := replacements_well_formed mixedMatcher
    wholeDiff_covers
    ⟨[⟨2, 0, [['n']], 0⟩, ⟨1, 1, [['d']], 1⟩, ⟨1, 0, [['b']], 0⟩], [⟨1, 2, 2⟩, ⟨0, 1, 3⟩], 2, true⟩
    (by decide)
  refine ⟨produced, edits.symm.trans ?_, follows⟩
  simp [ChunkCursor.intoSortedReplacements, ChunkCursor.sorted, List.mergeSort,
    List.MergeSort.Internal.splitInTwo, Replacement.le]

end Codex.ApplyPatch
