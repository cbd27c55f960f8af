import Codex.ApplyPatch.Disambiguation
import Codex.ApplyPatch.LineEdits

/-!
# Textual updates

What the parsed textual chunks of a hunk make of a source (`new_contents_from_prepared`,
`apply-patch/src/lib.rs:1928`): the lines they remove go, the lines they add come in, and every
other line keeps its bytes and its ending.
-/

namespace Codex.ApplyPatch

open Codex.Text Codex.Splice PatchSyntax ChunkMatcher

/-- A text is lines that end in a feed, and a rest without one. -/
theorem splitInclusive_shape (text : Text) : ∃ lines last,
    (∀ line ∈ lines, ∃ body, line = body ++ ['\n'] ∧ '\n' ∉ body) ∧ '\n' ∉ last ∧
      text = lines.flatten ++ last ∧
        splitInclusive text = lines ++ (if last = [] then [] else [last]) := by
  induction text with
  | nil => exact ⟨[], [], by simp, by simp, rfl, rfl⟩
  | cons c text ih =>
    obtain ⟨lines, last, feeds, single, whole, split_⟩ := ih
    by_cases feed : c = '\n'
    · refine ⟨['\n'] :: lines, last, ?_, single, ?_, ?_⟩
      · intro line member
        rcases List.mem_cons.mp member with rfl | old
        · exact ⟨[], rfl, by simp⟩
        · exact feeds line old
      · simp [feed, whole]
      · rw [splitInclusive, if_pos feed, split_, feed]
        rfl
    rw [splitInclusive, if_neg feed, split_]
    cases lines with
    | cons first rest =>
      obtain ⟨body, isLine, clean⟩ := feeds first List.mem_cons_self
      refine ⟨(c :: first) :: rest, last, ?_, single, by simp [whole], rfl⟩
      intro line member
      rcases List.mem_cons.mp member with rfl | old
      · refine ⟨c :: body, by simp [isLine], ?_⟩
        simp [clean, Ne.symm feed]
      · exact feeds line (List.mem_cons_of_mem _ old)
    | nil =>
      refine ⟨[], c :: last, by simp, by simp [single, Ne.symm feed], by simp [whole], ?_⟩
      by_cases empty : last = [] <;> simp [empty]

@[simp] theorem endsInFeed_append_feed (text : Text) : endsInFeed (text ++ ['\n']) = true := by
  simp [endsInFeed]

variable {text source : Text}

theorem stripEnding_of_single (single : '\n' ∉ text) : stripEnding text = text := by
  have crlf : ¬ ['\r', '\n'] <:+ text := fun ends => single (ends.subset (by simp))
  have feed : ¬ ['\n'] <:+ text := fun ends => single (ends.subset (by simp))
  simp [stripEnding, stripSuffix, crlf, feed]

/-- A line loses either ending. -/
theorem stripEnding_append {newline : Text} (isEnding : newline = ['\r', '\n'] ∨ newline = ['\n'])
    (plain : '\r' ∉ text) : stripEnding (text ++ newline) = text := by
  rcases isEnding with rfl | rfl
  · simp [stripEnding, stripSuffix]
  · have crlf : ¬ ['\r', '\n'] <:+ text ++ ['\n'] := by
      intro ends
      have member : '\r' ∈ text ++ ['\n'] := ends.subset (by simp)
      simp [plain] at member
    simp [stripEnding, stripSuffix, crlf]

/-- The text of a marked line, without an ending. -/
def lineBody (line : Bool × Text) : Text := if line.1 then line.2 else stripEnding line.2

/-- A marked line with an ending: a kept line has its own, or gets the newline when it has none. -/
def terminated (newline : Text) (line : Bool × Text) : Text :=
  if line.1 || !endsInFeed line.2 then line.2 ++ newline else line.2

/-- Marked lines written out. The last one is as it is, or without its ending when the source was
    unterminated. -/
def writeLines (newline : Text) (unterminated : Bool) : List (Bool × Text) → Text
  | [] => []
  | [last] => if unterminated then lineBody last else renderMarked newline last
  | line :: rest => terminated newline line ++ writeLines newline unterminated rest

/-- A source that is not empty and does not end in a newline. -/
def PreparedSource.unterminated (source : PreparedSource) : Bool :=
  !source.contents.isEmpty && !endsInFeed source.contents

section Writing

variable {newline : Text} {items : List (Bool × Text)}

theorem endsInFeed_append_newline (isEnding : newline = ['\r', '\n'] ∨ newline = ['\n'])
    (text : Text) : endsInFeed (text ++ newline) = true := by
  rcases isEnding with rfl | rfl
  · rw [show text ++ ['\r', '\n'] = (text ++ ['\r']) ++ ['\n'] by simp]
    exact endsInFeed_append_feed _
  · exact endsInFeed_append_feed text

theorem terminated_eq (isEnding : newline = ['\r', '\n'] ∨ newline = ['\n'])
    (line : Bool × Text) :
    (if endsInFeed (renderMarked newline line) then renderMarked newline line
      else renderMarked newline line ++ newline) = terminated newline line := by
  obtain ⟨added, text⟩ := line
  cases added with
  | true => simp [renderMarked, terminated, endsInFeed_append_newline isEnding]
  | false =>
    cases ends : endsInFeed text <;> simp [renderMarked, terminated, ends]

theorem flatten_terminateLines (isEnding : newline = ['\r', '\n'] ∨ newline = ['\n'])
    (items : List (Bool × Text)) :
    (terminateLines newline (items.map (renderMarked newline))).flatten =
      writeLines newline false items := by
  induction items with
  | nil => rfl
  | cons line rest ih =>
    cases rest with
    | nil => simp [terminateLines, writeLines]
    | cons second rest =>
      change (if endsInFeed (renderMarked newline line) then renderMarked newline line
        else renderMarked newline line ++ newline) ++ (terminateLines newline
          ((second :: rest).map (renderMarked newline))).flatten = _
      rw [ih, terminated_eq isEnding]
      rfl

theorem stripLast_renderMarked (isEnding : newline = ['\r', '\n'] ∨ newline = ['\n'])
    {line : Bool × Text} (plain : line.1 = true → '\r' ∉ line.2)
    (kept : line.1 = false → endsInFeed line.2 = false → stripEnding line.2 = line.2) :
    (if endsInFeed (renderMarked newline line) then stripEnding (renderMarked newline line)
      else renderMarked newline line) = lineBody line := by
  obtain ⟨added, text⟩ := line
  cases added with
  | true =>
    simp only [renderMarked, if_true, endsInFeed_append_newline isEnding, lineBody]
    exact stripEnding_append isEnding (plain rfl)
  | false =>
    simp only [renderMarked, lineBody, Bool.false_eq_true, if_false]
    cases ends : endsInFeed text with
    | true => rfl
    | false => exact (kept rfl ends).symm

/-- A line that the source can have: a body, and a feed unless it is the last. -/
def IsSourceLine (text : Text) : Prop :=
  ∃ body, '\n' ∉ body ∧ (text = body ++ ['\n'] ∨ text = body)

theorem IsSourceLine.stripEnding (isLine : IsSourceLine text)
    (open_ : endsInFeed text = false) : ApplyPatch.stripEnding text = text := by
  obtain ⟨body, single, rfl | rfl⟩ := isLine
  · rw [endsInFeed_append_feed] at open_
    cases open_
  · exact stripEnding_of_single single

theorem flatten_stripLastEnding (isEnding : newline = ['\r', '\n'] ∨ newline = ['\n'])
    (plain : ∀ line ∈ items, line.1 = true → '\r' ∉ line.2)
    (kept : ∀ line ∈ items, line.1 = false → IsSourceLine line.2) :
    (stripLastEnding (terminateLines newline (items.map (renderMarked newline)))).flatten =
      writeLines newline true items := by
  induction items with
  | nil => rfl
  | cons line rest ih =>
    cases rest with
    | nil =>
      change [if endsInFeed (renderMarked newline line) then
        ApplyPatch.stripEnding (renderMarked newline line)
          else renderMarked newline line].flatten = lineBody line
      rw [List.flatten_singleton]
      exact stripLast_renderMarked isEnding (plain line List.mem_cons_self)
        fun isKept => (kept line List.mem_cons_self isKept).stripEnding
    | cons second rest =>
      have later := ih (fun line member => plain line (List.mem_cons_of_mem _ member))
        (fun line member => kept line (List.mem_cons_of_mem _ member))
      have split_ : ∀ (first : Text) (lines : List Text), lines ≠ [] →
          stripLastEnding (first :: lines) = first :: stripLastEnding lines := by
        intro first lines nonempty
        cases lines with
        | nil => exact absurd rfl nonempty
        | cons second rest => rfl
      have tail : terminateLines newline ((second :: rest).map (renderMarked newline)) ≠ [] := by
        cases rest <;> exact List.cons_ne_nil _ _
      change (stripLastEnding ((if endsInFeed (renderMarked newline line) then
        renderMarked newline line else renderMarked newline line ++ newline) ::
          terminateLines newline ((second :: rest).map (renderMarked newline)))).flatten = _
      rw [split_ _ _ tail, List.flatten_cons, later, terminated_eq isEnding]
      rfl

end Writing

theorem newline_isEnding (source : Text) : (PreparedSource.new source).newline = ['\r', '\n'] ∨
    (PreparedSource.new source).newline = ['\n'] := by
  simp only [PreparedSource.new]
  split
  · exact .inl rfl
  · exact .inr rfl

theorem isSourceLine_of_mem {line : Text} (member : line ∈ splitInclusive source) :
    IsSourceLine line := by
  obtain ⟨lines, last, feeds, single, _, split_⟩ := splitInclusive_shape source
  rw [split_] at member
  rcases List.mem_append.mp member with early | isLast
  · obtain ⟨body, rfl, clean⟩ := feeds line early
    exact ⟨body, clean, .inl rfl⟩
  · split at isLast
    · cases isLast
    · rw [List.mem_singleton.mp isLast]
      exact ⟨last, single, .inr rfl⟩

/-- A source that nothing is done to is written as it was. -/
theorem writeLines_kept (source : Text) : writeLines (PreparedSource.new source).newline
    (PreparedSource.new source).unterminated (PreparedSource.new source).keptLines = source := by
  obtain ⟨lines, last, feeds, single, whole, split_⟩ := splitInclusive_shape source
  have closed : ∀ (newline : Text) (lines : List Text),
      (∀ line ∈ lines, ∃ body, line = body ++ ['\n'] ∧ '\n' ∉ body) →
      writeLines newline false (lines.map fun line => (false, line)) = lines.flatten := by
    intro newline lines feeds
    induction lines with
    | nil => rfl
    | cons line rest ih =>
      have later := ih fun line member => feeds line (List.mem_cons_of_mem _ member)
      obtain ⟨body, rfl, _⟩ := feeds line List.mem_cons_self
      cases rest with
      | nil => simp [writeLines, renderMarked]
      | cons second rest =>
        change terminated newline (false, body ++ ['\n']) ++ writeLines newline false
          ((second :: rest).map fun line => (false, line)) = _
        rw [later]
        simp [terminated]
  have opened : ∀ (newline : Text) (unterminated : Bool) (lines : List Text),
      (∀ line ∈ lines, ∃ body, line = body ++ ['\n'] ∧ '\n' ∉ body) →
      writeLines newline unterminated ((lines ++ [last]).map fun line => (false, line)) =
        lines.flatten ++ last := by
    intro newline unterminated lines feeds
    induction lines with
    | nil => cases unterminated <;> simp [writeLines, renderMarked, lineBody,
        stripEnding_of_single single]
    | cons line rest ih =>
      have later := ih fun line member => feeds line (List.mem_cons_of_mem _ member)
      obtain ⟨body, rfl, _⟩ := feeds line List.mem_cons_self
      have step : ∀ rest : List (Bool × Text), rest ≠ [] →
          writeLines newline unterminated ((false, body ++ ['\n']) :: rest) =
            body ++ ['\n'] ++ writeLines newline unterminated rest := by
        intro rest nonempty
        cases rest with
        | nil => exact absurd rfl nonempty
        | cons second rest => simp [writeLines, terminated]
      rw [List.cons_append, List.map_cons, step _ (by simp), later, List.flatten_cons]
      simp only [List.append_assoc]
  simp only [PreparedSource.keptLines, PreparedSource.new, PreparedSource.unterminated]
  rw [split_]
  by_cases empty : last = []
  · rw [if_pos empty, List.append_nil]
    have terminated_ : (!source.isEmpty && !endsInFeed source) = false := by
      rw [empty, List.append_nil] at whole
      rcases List.eq_nil_or_concat lines with rfl | ⟨front, final, rfl⟩
      · simp [whole]
      obtain ⟨body, rfl, _⟩ := feeds final (by simp)
      have ends : endsInFeed source = true := by
        rw [whole, List.concat_eq_append, List.flatten_append, List.flatten_singleton,
          ← List.append_assoc]
        exact endsInFeed_append_feed _
      simp [ends]
    rw [terminated_, closed _ _ feeds, whole, empty, List.append_nil]
  · rw [if_neg empty, opened _ _ _ feeds, ← whole]

/-- Rewriting a source writes its kept lines with the new ones spliced in. -/
theorem rewrite_eq {edits : List (Splice.Edit Text)}
    (plain : ∀ edit ∈ edits, ∀ line ∈ edit.2.2, '\r' ∉ line) :
    (PreparedSource.new source).rewrite edits = writeLines (PreparedSource.new source).newline
      (PreparedSource.new source).unterminated (spliceAll (PreparedSource.new source).keptLines
        (edits.map (mapEdit fun line => (true, line)))) := by
  have isEnding := newline_isEnding source
  have marked : ∀ line ∈ spliceAll (PreparedSource.new source).keptLines
      (edits.map (mapEdit fun line => (true, line))),
      (line.1 = true → '\r' ∉ line.2) ∧ (line.1 = false → IsSourceLine line.2) := by
    intro line member
    rcases mem_spliceAll member with old | ⟨edit, listed, new⟩
    · obtain ⟨text, isLine, rfl⟩ := List.mem_map.mp old
      exact ⟨fun added => Bool.noConfusion added, fun _ => isSourceLine_of_mem isLine⟩
    · obtain ⟨edit, own, rfl⟩ := List.mem_map.mp listed
      obtain ⟨text, isNew, rfl⟩ := List.mem_map.mp new
      exact ⟨fun _ => plain edit own text isNew, fun kept => Bool.noConfusion kept⟩
  unfold PreparedSource.rewrite
  simp only
  rw [applyReplacements_rendered]
  have same : ((PreparedSource.new source).contents ≠ [] ∧
      endsInFeed (PreparedSource.new source).contents = false) ↔
        (PreparedSource.new source).unterminated = true := by
    simp [PreparedSource.unterminated]
  cases unterminated : (PreparedSource.new source).unterminated with
  | true =>
    rw [if_pos (same.mpr unterminated)]
    exact flatten_stripLastEnding isEnding (fun line member => (marked line member).1)
      fun line member => (marked line member).2
  | false =>
    rw [if_neg (by rw [same, unterminated]; exact Bool.false_ne_true)]
    exact flatten_terminateLines isEnding _

/-- What is written ends with the last line. -/
theorem writeLines_concat (newline : Text) (front : List (Bool × Text)) (last : Bool × Text) :
    ∃ before, writeLines newline true (front ++ [last]) = before ++ lineBody last := by
  induction front with
  | nil => exact ⟨[], rfl⟩
  | cons line rest ih =>
    obtain ⟨before, same⟩ := ih
    refine ⟨terminated newline line ++ before, ?_⟩
    have step : writeLines newline true (line :: (rest ++ [last])) =
        terminated newline line ++ writeLines newline true (rest ++ [last]) := by
      cases rest <;> rfl
    rw [List.cons_append, step, same, List.append_assoc]

/-- A text that is written unterminated ends in a feed only when its last line is empty. -/
theorem writeLines_unterminated {newline : Text} {items : List (Bool × Text)}
    (bodies : ∀ line ∈ items, '\n' ∉ lineBody line)
    (ends : endsInFeed (writeLines newline true items) = true) :
    ∃ front last, items = front ++ [last] ∧ lineBody last = [] := by
  rcases List.eq_nil_or_concat items with rfl | ⟨front, last, rfl⟩
  · cases ends
  rw [List.concat_eq_append] at ends bodies ⊢
  refine ⟨front, last, rfl, ?_⟩
  have single := bodies last (by simp)
  obtain ⟨before, same⟩ := writeLines_concat newline front last
  rw [same, endsInFeed, List.isSuffixOf_iff_suffix] at ends
  rcases List.eq_nil_or_concat (lineBody last) with empty | ⟨body, final, isLast⟩
  · exact empty
  rw [isLast, List.concat_eq_append] at ends single
  obtain ⟨rest, joined⟩ := ends
  rw [← List.append_assoc] at joined
  have feed := (List.append_inj' joined rfl).2
  rw [List.singleton_inj] at feed
  rw [← feed] at single
  exact absurd (List.mem_append_right _ (List.mem_singleton_self _)) single

/-- The file order of two chunks at their sites: by the spans that they claim, and for bare
    additions as they are listed. -/
structure InFileOrder (matcher : ChunkMatcher) (sites : Nat → ChunkSite) (first second : Nat) :
    Prop where
  claimed : first ≠ second → matcher.bareAddition first (sites first) = false →
    matcher.bareAddition second (sites second) = false →
      (matcher.claim first (sites first)).stop ≤ (matcher.claim second (sites second)).start
  bare : first ≠ second → matcher.bareAddition first (sites first) = true →
    matcher.bareAddition second (sites second) = true → first < second

section Changes

variable {matcher : ChunkMatcher} {cursor : ChunkCursor} {count : Nat}
  {written : List Chunk} {writes : Nat → List Replacement} {sites : Nat → ChunkSite}
  {parts : Nat → List (List (Splice.Edit Text))}

variable {chunkIndex : Nat}

theorem filePosition_bare {claimed : List ClaimedSpan}
    (unclaimed : ∀ claim ∈ claimed, claim.chunkOrdinal ≠ chunkIndex + 1) :
    filePosition claimed chunkIndex =
      furthest (claimed.filter fun claim => decide (claim.chunkOrdinal ≤ chunkIndex)) := by
  have none_ : claimOf claimed chunkIndex = none := by
    refine List.find?_eq_none.mpr ?_
    intro claim member
    simpa using unclaimed claim member
  rw [filePosition, none_]

/-- Replacements that follow each other are in the file order of their chunks. -/
theorem inFileOrder_of_follows {first second : Nat × Replacement}
    (placed : Placed matcher count cursor)
    (firstBare : matcher.bareAddition first.1 (sites first.1) = true →
      ∀ claim ∈ cursor.claimed, claim.chunkOrdinal ≠ first.1 + 1)
    (secondBare : matcher.bareAddition second.1 (sites second.1) = true →
      ∀ claim ∈ cursor.claimed, claim.chunkOrdinal ≠ second.1 + 1)
    (firstClaims : matcher.bareAddition first.1 (sites first.1) = false →
      matcher.claim first.1 (sites first.1) ∈ cursor.claimed)
    (secondClaims : matcher.bareAddition second.1 (sites second.1) = false →
      matcher.claim second.1 (sites second.1) ∈ cursor.claimed)
    (firstInside : WritesInside matcher cursor.claimed first.1 first.2)
    (secondInside : WritesInside matcher cursor.claimed second.1 second.2)
    (follows : Follows cursor.claimed first second) :
    InFileOrder matcher sites first.1 second.1 := by
  obtain ⟨apart, ties⟩ := follows
  have inClaim : ∀ {entry : Nat × Replacement}, WritesInside matcher cursor.claimed entry.1 entry.2 →
      matcher.claim entry.1 (sites entry.1) ∈ cursor.claimed →
      (matcher.claim entry.1 (sites entry.1)).start ≤ entry.2.start ∧
        entry.2.start + entry.2.oldLen ≤ (matcher.claim entry.1 (sites entry.1)).stop ∧
          filePosition cursor.claimed entry.1 = (matcher.claim entry.1 (sites entry.1)).start := by
    intro entry inside member
    have own := claimOf_eq_some placed.ordinals member rfl
    rcases inside with ⟨claim, listed, ordinal, _, start, stop⟩ | ⟨_, _, unclaimed⟩
    · have same := (claimOf_eq_some placed.ordinals listed ordinal).symm.trans own
      rw [Option.some_inj.mp same] at start stop
      exact ⟨start, stop, by rw [filePosition, own]⟩
    · exact absurd rfl (unclaimed _ member)
  refine ⟨?_, ?_⟩
  · intro different firstFree secondFree
    have firstMember := firstClaims firstFree
    have secondMember := secondClaims secondFree
    obtain ⟨firstStart, firstStop, firstPosition⟩ := inClaim firstInside firstMember
    obtain ⟨secondStart, secondStop, secondPosition⟩ := inClaim secondInside secondMember
    have distinct : matcher.claim first.1 (sites first.1) ≠ matcher.claim second.1
        (sites second.1) := by
      intro same
      exact different (Nat.succ.inj (congrArg ClaimedSpan.chunkOrdinal same))
    have : Std.Symm fun one other : ClaimedSpan =>
        one.stop ≤ other.start ∨ other.stop ≤ one.start := ⟨fun _ _ => Or.symm⟩
    rcases placed.apart.forall firstMember secondMember distinct with before | behind
    · exact before
    -- both would start where the second span ends, with the second chunk first in the file
    have nonempty := (placed.spans _ secondMember).1
    have start : first.2.start = second.2.start := by omega
    have order := ties start
    rw [FileBefore, firstPosition, secondPosition] at order
    omega
  · intro different firstFree secondFree
    have firstNone := firstBare firstFree
    have secondNone := secondBare secondFree
    have start : first.2.start = second.2.start := by
      rcases firstInside with ⟨claim, listed, ordinal, _⟩ | ⟨firstStart, _⟩
      · exact absurd ordinal (firstNone claim listed)
      · rcases secondInside with ⟨claim, listed, ordinal, _⟩ | ⟨secondStart, _⟩
        · exact absurd ordinal (secondNone claim listed)
        · rw [firstStart, secondStart]
    have order := ties start
    rw [FileBefore, filePosition_bare firstNone, filePosition_bare secondNone] at order
    by_contra later
    have fewer : furthest (cursor.claimed.filter fun claim =>
        decide (claim.chunkOrdinal ≤ second.1)) ≤ furthest (cursor.claimed.filter fun claim =>
          decide (claim.chunkOrdinal ≤ first.1)) := by
      refine furthest_le ?_
      intro claim member
      rw [List.mem_filter, decide_eq_true_eq] at member
      refine le_furthest (List.mem_filter.mpr ⟨member.1, ?_⟩)
      rw [decide_eq_true_eq]
      omega
    omega

/-- The replacements of a chunk, each with the line edits that spell it. -/
def spelledEntries (writes : Nat → List Replacement) (parts : Nat → List (List (Splice.Edit Text)))
    (chunkIndex : Nat) : List ((Nat × Replacement) × List (Splice.Edit Text)) :=
  ((writes chunkIndex).zip (parts chunkIndex)).map fun pair => ((chunkIndex, pair.1), pair.2)

/-- The spelled replacements of the chunks, sorted. -/
def sortedEntries (writes : Nat → List Replacement) (parts : Nat → List (List (Splice.Edit Text)))
    (count : Nat) : List ((Nat × Replacement) × List (Splice.Edit Text)) :=
  ((List.range count).flatMap (spelledEntries writes parts)).mergeSort
    fun first second => entryLe first.1 second.1

/-- The line edits of the chunks in the order in which they are made, each with its chunk. -/
def lineChanges (entries : List ((Nat × Replacement) × List (Splice.Edit Text))) :
    List (Nat × Splice.Edit Text) :=
  entries.flatMap fun entry => entry.2.map (Prod.mk entry.1.1)

theorem map_fst_sortedEntries (lengths : ∀ index < count, (writes index).length =
    (parts index).length) :
    (sortedEntries writes parts count).map Prod.fst =
      (pushed writes count).mergeSort entryLe := by
  have same : ((List.range count).flatMap (spelledEntries writes parts)).map Prod.fst =
      pushed writes count := by
    rw [pushed, List.map_flatMap]
    refine List.flatMap_congr ?_
    intro index member
    have zipped := List.map_fst_zip (lengths index (List.mem_range.mp member)).le
    calc (spelledEntries writes parts index).map Prod.fst
        = (((writes index).zip (parts index)).map Prod.fst).map (Prod.mk index) := by
          simp [spelledEntries, Function.comp_def]
      _ = (writes index).map (Prod.mk index) := by rw [zipped]
  rw [← same]
  exact List.map_mergeSort fun _ _ _ _ => rfl

/-- The entries of one chunk among those of all. -/
theorem filter_flatMap_range {α : Type} (entries : Nat → List α) (tag : α → Nat)
    (tags : ∀ index, ∀ entry ∈ entries index, tag entry = index) (count index : Nat) :
    ((List.range count).flatMap entries).filter (fun entry => decide (tag entry = index)) =
      if index < count then entries index else [] := by
  induction count with
  | zero => simp
  | succ count ih =>
    rw [List.range_succ, List.flatMap_append, List.flatMap_singleton, List.filter_append, ih]
    by_cases same : count = index
    · subst same
      rw [if_neg (Nat.lt_irrefl _), if_pos (Nat.lt_succ_self _), List.nil_append,
        List.filter_eq_self]
      intro entry member
      simpa using tags count entry member
    have none_ : (entries count).filter (fun entry => decide (tag entry = index)) = [] := by
      rw [List.filter_eq_nil_iff]
      intro entry member
      rw [tags count entry member]
      simpa using same
    rw [none_, List.append_nil]
    by_cases before : index < count
    · rw [if_pos before, if_pos (by omega)]
    · rw [if_neg before, if_neg (by omega)]

/-- Sorting leaves the entries of one chunk in their order. -/
theorem filter_sortedEntries (inside : chunkIndex < count)
    (length : (writes chunkIndex).length = (parts chunkIndex).length)
    (ordered : (writes chunkIndex).Pairwise fun first second => first.le second = true) :
    (sortedEntries writes parts count).filter (fun entry => decide (entry.1.1 = chunkIndex)) =
      spelledEntries writes parts chunkIndex := by
  have tags : ∀ index, ∀ entry ∈ spelledEntries writes parts index, entry.1.1 = index := by
    intro index entry member
    obtain ⟨pair, _, rfl⟩ := List.mem_map.mp member
    rfl
  have own := filter_flatMap_range (spelledEntries writes parts) (fun entry => entry.1.1) tags count
    chunkIndex
  rw [if_pos inside] at own
  have sorted : (spelledEntries writes parts chunkIndex).Pairwise fun first second =>
      entryLe first.1 second.1 = true := by
    rw [spelledEntries, List.pairwise_map]
    have zipped : (((writes chunkIndex).zip (parts chunkIndex)).map Prod.fst).Pairwise
        fun first second => first.le second = true := by
      rwa [List.map_fst_zip length.le]
    exact (List.pairwise_map.mp zipped).imp id
  have listed : (spelledEntries writes parts chunkIndex).Sublist
      ((List.range count).flatMap (spelledEntries writes parts)) :=
    own ▸ List.filter_sublist
  have kept : (spelledEntries writes parts chunkIndex).Sublist (sortedEntries writes parts count) :=
    List.sublist_mergeSort (fun first second third => entryLe_trans first.1 second.1 third.1)
      (fun first second => entryLe_total first.1 second.1) sorted listed
  have filtered := kept.filter fun entry => decide (entry.1.1 = chunkIndex)
  have all : (spelledEntries writes parts chunkIndex).filter
      (fun entry => decide (entry.1.1 = chunkIndex)) = spelledEntries writes parts chunkIndex :=
    List.filter_eq_self.mpr fun entry member => decide_eq_true (tags chunkIndex entry member)
  rw [all] at filtered
  refine (filtered.eq_of_length ?_).symm
  have permuted := (List.mergeSort_perm ((List.range count).flatMap (spelledEntries writes parts))
    fun first second => entryLe first.1 second.1).filter
      fun entry => decide (entry.1.1 = chunkIndex)
  rw [sortedEntries, permuted.length_eq, own]

/-- The line edits of one chunk are made in the order of its lines. -/
theorem filter_lineChanges (inside : chunkIndex < count)
    (length : (writes chunkIndex).length = (parts chunkIndex).length)
    (ordered : (writes chunkIndex).Pairwise fun first second => first.le second = true) :
    ((lineChanges (sortedEntries writes parts count)).filter
      (fun change => decide (change.1 = chunkIndex))).map Prod.snd =
        (parts chunkIndex).flatten := by
  have each : ∀ entry : (Nat × Replacement) × List (Splice.Edit Text),
      (entry.2.map (Prod.mk entry.1.1)).filter (fun change => decide (change.1 = chunkIndex)) =
        if entry.1.1 = chunkIndex then entry.2.map (Prod.mk entry.1.1) else [] := by
    intro entry
    split
    next same =>
      refine List.filter_eq_self.mpr ?_
      intro change member
      obtain ⟨edit, _, rfl⟩ := List.mem_map.mp member
      exact decide_eq_true same
    next other =>
      refine List.filter_eq_nil_iff.mpr ?_
      intro change member
      obtain ⟨edit, _, rfl⟩ := List.mem_map.mp member
      simpa using other
  have chosen : ∀ entries : List ((Nat × Replacement) × List (Splice.Edit Text)),
      ((lineChanges entries).filter (fun change => decide (change.1 = chunkIndex))).map Prod.snd =
        (entries.filter fun entry => decide (entry.1.1 = chunkIndex)).flatMap Prod.snd := by
    intro entries
    induction entries with
    | nil => rfl
    | cons entry rest ih =>
      rw [lineChanges, List.flatMap_cons, List.filter_append, List.map_append, each,
        List.filter_cons]
      rw [lineChanges] at ih
      rw [ih]
      by_cases same : entry.1.1 = chunkIndex
      · simp [same, Function.comp_def]
      · simp [same]
  rw [chosen, filter_sortedEntries inside length ordered, spelledEntries]
  have zipped := List.map_snd_zip length.ge
  rw [List.flatMap_map, List.flatMap_def]
  change (((writes chunkIndex).zip (parts chunkIndex)).map Prod.snd).flatten = _
  rw [zipped]

/-- The replacements of a chunk are sorted as they are pushed. -/
theorem writes_sorted {claimed : List ClaimedSpan} {replacements : List Replacement}
    (own : Writes matcher claimed chunkIndex replacements) (inOrder : OperationsOrdered matcher)
    (ordinals : claimed.Pairwise fun first second => first.chunkOrdinal < second.chunkOrdinal) :
    replacements.Pairwise fun first second => first.le second = true := by
  refine (own.ordered inOrder).imp_of_mem ?_
  intro first second firstMember secondMember before
  have firstOrder := own.order ordinals firstMember
  have secondOrder := own.order ordinals secondMember
  rw [Replacement.le, decide_eq_true_eq]
  omega

theorem mem_sortedEntries {entry : (Nat × Replacement) × List (Splice.Edit Text)}
    (member : entry ∈ sortedEntries writes parts count) :
    entry.1.1 < count ∧ (entry.1.2, entry.2) ∈ (writes entry.1.1).zip (parts entry.1.1) := by
  obtain ⟨index, inside, own⟩ := List.mem_flatMap.mp (List.mem_mergeSort.mp member)
  obtain ⟨pair, zipped, rfl⟩ := List.mem_map.mp own
  exact ⟨List.mem_range.mp inside, zipped⟩

/-- The edits of the sorted replacements, and their line edits, on marked lines. -/
theorem substitute_lineChanges {lines : List (Bool × Text)}
    (spelled : ∀ entry ∈ sortedEntries writes parts count, Spells entry.1.2.start
      (entry.1.2.start + entry.1.2.oldLen) entry.1.2.newLines entry.2)
    (lengths : ∀ index < count, (writes index).length = (parts index).length)
    (fits : Fits lines.length 0
      (((pushed writes count).mergeSort entryLe).map fun entry => entry.2.edit)) :
    spliceAll lines ((((pushed writes count).mergeSort entryLe).map fun entry =>
        entry.2.edit).map (mapEdit fun line => (true, line))) =
      substitute lines 0 ((lineChanges (sortedEntries writes parts count)).map fun change =>
        mapEdit (fun line => (true, line)) change.2) := by
  rw [spliceAll_eq_substitute ((fits_map _).mpr fits)]
  rw [← map_fst_sortedEntries lengths] at fits ⊢
  have whole := @substitute_spelled _ lines 0
    ((sortedEntries writes parts count).map fun entry =>
      (mapEdit (fun line => (true, line)) entry.1.2.edit,
        entry.2.map (mapEdit fun line => (true, line)))) ?_ ?_
  · have edits : ((sortedEntries writes parts count).map fun entry =>
        (mapEdit (fun line => (true, line)) entry.1.2.edit,
          entry.2.map (mapEdit fun line => (true, line)))).map Prod.fst =
        (((sortedEntries writes parts count).map Prod.fst).map fun entry =>
          entry.2.edit).map (mapEdit fun line => (true, line)) := by
      simp [Function.comp_def]
    have changes : ((sortedEntries writes parts count).map fun entry =>
        (mapEdit (fun line => (true, line)) entry.1.2.edit,
          entry.2.map (mapEdit fun line => (true, line)))).flatMap Prod.snd =
        (lineChanges (sortedEntries writes parts count)).map fun change =>
          mapEdit (fun line => (true, line)) change.2 := by
      rw [lineChanges, List.map_flatMap, List.flatMap_map]
      refine List.flatMap_congr ?_
      intro entry _
      simp [Function.comp_def]
    rw [← edits, ← changes]
    exact whole.1
  · intro entry member
    obtain ⟨own, listed, rfl⟩ := List.mem_map.mp member
    exact (spelled own listed).map _
  · rw [List.map_map] at fits ⊢
    have mapped := (fits_map fun line => (true, line)).mpr fits
    rwa [List.map_map] at mapped

/-- The replacements of every chunk are spelled by their line edits. -/
theorem spells_sortedEntries (edited : ∀ index < count, ∃ chunk, EditsAt matcher cursor.claimed
      index chunk (writes index) (sites index) (parts index)) :
    (∀ index < count, (writes index).length = (parts index).length) ∧
    ∀ entry ∈ sortedEntries writes parts count, Spells entry.1.2.start
      (entry.1.2.start + entry.1.2.oldLen) entry.1.2.newLines entry.2 := by
  refine ⟨?_, ?_⟩
  · intro index inside
    obtain ⟨chunk, editsAt⟩ := edited index inside
    exact editsAt.spelled.length_eq
  · intro entry member
    obtain ⟨inside, zipped⟩ := mem_sortedEntries member
    obtain ⟨chunk, editsAt⟩ := edited entry.1.1 inside
    exact (List.forall₂_iff_zip.mp editsAt.spelled).2 zipped

/-- The line edits of all chunks follow each other in file order. -/
theorem pairwise_lineChanges (placed : Placed matcher count cursor)
    (inOrder : OperationsOrdered matcher)
    (each : ∀ index < count, Writes matcher cursor.claimed index (writes index))
    (edited : ∀ index < count, ∃ chunk, EditsAt matcher cursor.claimed index chunk (writes index)
      (sites index) (parts index)) :
    (lineChanges (sortedEntries writes parts count)).Pairwise fun first second =>
      first.2.1 + first.2.2.1 ≤ second.2.1 ∧ InFileOrder matcher sites first.1 second.1 := by
  obtain ⟨lengths, spelled⟩ := spells_sortedEntries edited
  have follows := placed.pairwise_follows inOrder each
  rw [← map_fst_sortedEntries lengths, List.pairwise_map] at follows
  refine List.pairwise_flatMap.mpr ⟨?_, follows.imp_of_mem ?_⟩
  · intro entry member
    rw [List.pairwise_map]
    refine (spelled entry member).ordered.imp ?_
    intro first second before
    exact ⟨before, fun different => absurd rfl different, fun different => absurd rfl different⟩
  intro first second firstMember secondMember after one oneMember other otherMember
  obtain ⟨oneEdit, oneListed, rfl⟩ := List.mem_map.mp oneMember
  obtain ⟨otherEdit, otherListed, rfl⟩ := List.mem_map.mp otherMember
  have oneWithin := (spelled first firstMember).within oneEdit oneListed
  have otherWithin := (spelled second secondMember).within otherEdit otherListed
  obtain ⟨firstInside, firstZip⟩ := mem_sortedEntries firstMember
  obtain ⟨secondInside, secondZip⟩ := mem_sortedEntries secondMember
  obtain ⟨firstChunk, firstAt⟩ := edited _ firstInside
  obtain ⟨secondChunk, secondAt⟩ := edited _ secondInside
  have spans := fun claim member => (placed.spans claim member).1
  refine ⟨?_, ?_⟩
  · have := after.1
    simp only
    omega
  · exact inFileOrder_of_follows placed firstAt.bare secondAt.bare firstAt.claims secondAt.claims
      ((each _ firstInside).inside inOrder spans (List.of_mem_zip firstZip).1)
      ((each _ secondInside).inside inOrder spans (List.of_mem_zip secondZip).1) after

end Changes

theorem IsSourceLine.single_body (isLine : IsSourceLine text) :
    '\n' ∉ ApplyPatch.stripEnding text := by
  obtain ⟨body, single, rfl | rfl⟩ := isLine
  · unfold ApplyPatch.stripEnding
    split
    next line stripped =>
      unfold stripSuffix at stripped
      split at stripped
      · obtain rfl := Option.some_inj.mp stripped
        rw [List.take_append_of_le_length (by simp)]
        exact fun feed => single (List.mem_of_mem_take feed)
      · cases stripped
    · rw [stripSuffix_concat, Option.getD_some]
      exact single
  · rw [stripEnding_of_single single]
    exact single

theorem mem_lineEdits {position : Nat} {lines : List ChunkLine} {edit : Splice.Edit Text}
    (member : edit ∈ lineEdits position lines) (new : text ∈ edit.2.2) :
    ∃ line ∈ lines, line.kind = .add ∧ line.text = text := by
  induction lines generalizing position with
  | nil => cases member
  | cons line rest ih =>
    have later : ∀ {position}, edit ∈ lineEdits position rest →
        ∃ other ∈ line :: rest, other.kind = .add ∧ other.text = text := by
      intro position member
      obtain ⟨other, listed, own⟩ := ih member
      exact ⟨other, List.mem_cons_of_mem _ listed, own⟩
    unfold lineEdits at member
    cases kind : line.kind with
    | context =>
      rw [kind] at member
      exact later member
    | remove =>
      rw [kind] at member
      rcases List.mem_cons.mp member with rfl | old
      · cases new
      · exact later old
    | add =>
      rw [kind] at member
      rcases List.mem_cons.mp member with rfl | old
      · exact ⟨line, List.mem_cons_self, kind, (List.mem_singleton.mp new).symm⟩
      · exact later old

/-- Textual chunks that are accepted match, and their replacements rewrite the source. -/
theorem rewrite_of_accepted {edits : DescriptorEdits} {sha256 : Text → Text}
    {diffSlices : List Text → List Text → List DiffOp} {result : Text}
    {chunks : List UpdateFileChunk} (textual : ∀ chunk ∈ chunks, isTextual chunk = true)
    (accepted : newContentsFromPrepared edits sha256 diffSlices (PreparedSource.new source) chunks =
      .ok result) :
    ∃ cursor, ((PreparedSource.new source).matcher sha256 diffSlices chunks).matchFrom 0 {} =
        .ok cursor ∧
      result = (PreparedSource.new source).rewrite cursor.intoSortedReplacements := by
  have refused : ∀ descriptor : UpdateFileChunk → Bool,
      (∀ chunk, isTextual chunk = true → descriptor chunk = false) →
        chunks.any descriptor = false := by
    intro descriptor excluded
    rw [List.any_eq_false]
    intro chunk member
    rw [excluded chunk (textual chunk member)]
    exact Bool.false_ne_true
  unfold newContentsFromPrepared at accepted
  by_cases empty : chunks = []
  · subst empty
    obtain rfl := Except.ok.inj accepted
    refine ⟨{}, rfl, ?_⟩
    have nothing : ({} : ChunkCursor).intoSortedReplacements = [] := by
      simp [ChunkCursor.intoSortedReplacements, ChunkCursor.sorted]
    rw [nothing, rewrite_eq (by simp)]
    exact (writeLines_kept source).symm
  rw [if_neg (by simpa using empty),
    if_neg (by simp [refused isAnchorChunk fun chunk isText => by simp_all [isTextual]]),
    if_neg (by simp [refused isJsonChunk fun chunk isText => by simp_all [isTextual]]),
    if_neg (by simp [refused (contextStartsWith COUNTED_REPLACE) fun chunk isText => by
      simp_all [isTextual]])] at accepted
  obtain ⟨replacements, computed, rfl⟩ := Except.map_eq_ok accepted
  obtain ⟨cursor, matched, rfl⟩ := Except.map_eq_ok computed
  exact ⟨cursor, matched, rfl⟩

/-- What accepted textual chunks make of a source. Each chunk has a site, and its line edits start
    there: its removed lines are lines of the source and go, its added lines come in, in file
    order. Every other line keeps its bytes; it gets the newline only when it had no ending and is
    no longer last, and the last line of an unterminated source is written without an ending. -/
theorem textual_update_preserves_bytes (edits : DescriptorEdits) (sha256 : Text → Text)
    (diffSlices : List Text → List Text → List DiffOp) (source : Text) (written : List Chunk)
    (result : Text) (textual : ∀ chunk ∈ written, isTextual chunk.meaning = true)
    (plain : ∀ chunk ∈ written, ∀ line ∈ chunk.lines, line.kind = .add →
      '\r' ∉ line.text ∧ '\n' ∉ line.text)
    (accepted : newContentsFromPrepared edits sha256 diffSlices (PreparedSource.new source)
      (written.map Chunk.meaning) = .ok result) :
    let prepared := PreparedSource.new source
    let matcher := prepared.matcher sha256 diffSlices (written.map Chunk.meaning)
    ∃ (sites : Nat → ChunkSite) (changes : List (Nat × Splice.Edit Text)),
      (∀ chunkIndex chunk, written[chunkIndex]? = some chunk →
        MayPlace matcher chunkIndex (sites chunkIndex) ∧
        (changes.filter fun change => decide (change.1 = chunkIndex)).map Prod.snd =
          lineEdits (sites chunkIndex).start chunk.lines ∧
        ∀ removed ∈ removedLines (sites chunkIndex).start chunk.lines,
          prepared.logicalLines[removed.1]? = some removed.2) ∧
      (∀ change ∈ changes, change.1 < written.length) ∧
      changes.Pairwise (fun first second => first.2.1 + first.2.2.1 ≤ second.2.1 ∧
        InFileOrder matcher sites first.1 second.1) ∧
      let lines := substitute prepared.keptLines 0
        (changes.map fun change => mapEdit (fun line => (true, line)) change.2)
      result = writeLines prepared.newline prepared.unterminated lines ∧
        (prepared.unterminated = true → endsInFeed result = true →
          ∃ front last, lines = front ++ [last] ∧ lineBody last = []) := by
  intro prepared matcher
  obtain ⟨cursor, matched, rfl⟩ := rewrite_of_accepted
    (fun chunk member => by
      obtain ⟨own, listed, rfl⟩ := List.mem_map.mp member
      exact textual own listed) accepted
  have count : matcher.chunks.length = written.length := List.length_map _
  have inOrder : OperationsOrdered matcher := operationsOrdered_of_written rfl
  have placed : Placed matcher written.length cursor := count ▸ placed_of_matchFrom matched
  obtain ⟨writes, replacements, each⟩ := placed.written
  have parsed : ∀ chunkIndex chunk, written[chunkIndex]? = some chunk →
      matcher.chunk chunkIndex = chunk.meaning := by
    intro chunkIndex chunk listed
    simp [matcher, ChunkMatcher.chunk, PreparedSource.matcher, List.getD_eq_getElem?_getD, listed]
  have found : ∀ chunkIndex, ∃ site parts, ∀ chunk, written[chunkIndex]? = some chunk →
      EditsAt matcher cursor.claimed chunkIndex chunk (writes chunkIndex) site parts := by
    intro chunkIndex
    cases listed : written[chunkIndex]? with
    | none => exact ⟨⟨none, 0⟩, [], fun chunk same => absurd same (Option.some_ne_none chunk).symm⟩
    | some chunk =>
      have inside := (List.getElem?_eq_some_iff.mp listed).1
      obtain ⟨site, parts, editsAt⟩ := (each chunkIndex inside).editsAt
        (parsed chunkIndex chunk listed) (textual chunk (List.mem_of_getElem? listed))
      exact ⟨site, parts, fun other same => Option.some_inj.mp same ▸ editsAt⟩
  choose sites parts editsAt using found
  have edited : ∀ index < written.length, ∃ chunk, EditsAt matcher cursor.claimed index chunk
      (writes index) (sites index) (parts index) :=
    fun index inside => ⟨_, editsAt index _ (List.getElem?_eq_getElem inside)⟩
  obtain ⟨lengths, spelled⟩ := spells_sortedEntries edited
  have sorted := intoSortedReplacements_eq replacements
  have whole : prepared.keptLines.length = matcher.originalLines.length := by
    simp [prepared, matcher, PreparedSource.keptLines, PreparedSource.matcher, PreparedSource.new]
  -- the lines that come in are added lines of a chunk
  have added : ∀ edit ∈ cursor.intoSortedReplacements, ∀ text ∈ edit.2.2,
      '\r' ∉ text ∧ '\n' ∉ text := by
    intro edit member text new
    rw [sorted, ← map_fst_sortedEntries lengths, List.map_map] at member
    obtain ⟨entry, listed, rfl⟩ := List.mem_map.mp member
    obtain ⟨own, partMember, brought⟩ := (spelled entry listed).exists_of_mem new
    obtain ⟨inside, zipped⟩ := mem_sortedEntries listed
    have at_ := editsAt entry.1.1 _ (List.getElem?_eq_getElem inside)
    have flat : own ∈ (parts entry.1.1).flatten :=
      List.mem_flatten.mpr ⟨entry.2, (List.of_mem_zip zipped).2, partMember⟩
    rw [at_.flat] at flat
    obtain ⟨line, lineMember, kind, rfl⟩ := mem_lineEdits flat brought
    exact plain _ (List.getElem_mem inside) line lineMember kind
  have lines : spliceAll prepared.keptLines (cursor.intoSortedReplacements.map
      (mapEdit fun line => (true, line))) = substitute prepared.keptLines 0
        ((lineChanges (sortedEntries writes parts written.length)).map fun change =>
          mapEdit (fun line => (true, line)) change.2) := by
    rw [sorted]
    exact substitute_lineChanges spelled lengths (whole ▸ placed.fits inOrder each)
  have rewritten := @rewrite_eq source cursor.intoSortedReplacements
    fun edit member text new => (added edit member text new).1
  refine ⟨sites, lineChanges (sortedEntries writes parts written.length), ?_, ?_,
    pairwise_lineChanges placed inOrder each edited, ?_, ?_⟩
  · intro chunkIndex chunk listed
    have inside := (List.getElem?_eq_some_iff.mp listed).1
    have at_ := editsAt chunkIndex chunk listed
    refine ⟨at_.may, ?_, at_.removed⟩
    rw [filter_lineChanges inside (lengths chunkIndex inside)
      (writes_sorted (each chunkIndex inside) inOrder placed.ordinals)]
    exact at_.flat
  · intro change member
    obtain ⟨entry, listed, own⟩ := List.mem_flatMap.mp member
    obtain ⟨edit, _, rfl⟩ := List.mem_map.mp own
    exact (mem_sortedEntries listed).1
  · rw [rewritten, lines]
  intro unterminated ends
  rw [rewritten, unterminated, lines] at ends
  refine writeLines_unterminated ?_ ends
  intro line member
  rw [← lines] at member
  rcases mem_spliceAll member with old | ⟨edit, listed, new⟩
  · obtain ⟨text, isLine, rfl⟩ := List.mem_map.mp old
    exact (isSourceLine_of_mem isLine).single_body
  · obtain ⟨edit, own, rfl⟩ := List.mem_map.mp listed
    obtain ⟨text, isNew, rfl⟩ := List.mem_map.mp new
    exact (added edit own text isNew).2

/-- No descriptor is edited. -/
def noDescriptors : DescriptorEdits where
  anchorReplace _ _ := .error .trialMiss
  jsonApply _ _ _ := .error .trialMiss
  countedReplace _ _ := .error .trialMiss

/-- The last line of an unterminated source is replaced. -/
def replacesLast : List Chunk :=
  [⟨none, [⟨.context, ['a']⟩, ⟨.remove, ['b']⟩, ⟨.add, ['c']⟩], false⟩]

theorem replacesLast_accepted : newContentsFromPrepared noDescriptors id (fun _ _ => [])
    (PreparedSource.new "a\r\nb".toList) (replacesLast.map Chunk.meaning) =
      .ok "a\r\nc".toList := by
  have matched : ((PreparedSource.new "a\r\nb".toList).matcher id (fun _ _ => [])
      (replacesLast.map Chunk.meaning)).matchFrom 0 {} =
        .ok ⟨[⟨1, 1, [['c']], 0⟩], [⟨0, 2, 1⟩], 2, true⟩ := by decide
  change (((PreparedSource.new "a\r\nb".toList).matcher id (fun _ _ => [])
    (replacesLast.map Chunk.meaning)).computeReplacements).map _ = _
  rw [ChunkMatcher.computeReplacements, matched]
  simp only [Except.map, ChunkCursor.intoSortedReplacements, ChunkCursor.sorted,
    List.mergeSort_singleton]
  decide

theorem textual_update_preserves_bytes_last :
    ∃ (sites : Nat → ChunkSite) (changes : List (Nat × Splice.Edit Text)),
      (changes.filter fun change => decide (change.1 = 0)).map Prod.snd =
          [((sites 0).start + 1, 1, []), ((sites 0).start + 1 + 1, 0, [['c']])] ∧
        "a\r\nc".toList = writeLines ['\r', '\n'] true
          (substitute (PreparedSource.new "a\r\nb".toList).keptLines 0
            (changes.map fun change => mapEdit (fun line => (true, line)) change.2)) := by
  obtain ⟨sites, changes, chunks, _, _, written, _⟩ := textual_update_preserves_bytes noDescriptors
    id (fun _ _ => []) "a\r\nb".toList replacesLast "a\r\nc".toList (by decide) (by decide)
    replacesLast_accepted
  exact ⟨sites, changes, (chunks 0 _ rfl).2.1, written⟩

/-- A line that is added at the end of an unterminated source, and is empty. -/
def addsEmptyLine : List Chunk := [⟨none, [⟨.context, ['a']⟩, ⟨.add, []⟩], false⟩]

/-- A source without a newline at its end may get one: the last line is then empty. -/
theorem empty_last_line_ends_in_newline :
    newContentsFromPrepared noDescriptors id (fun _ _ => []) (PreparedSource.new ['a'])
        (addsEmptyLine.map Chunk.meaning) = .ok ['a', '\n'] ∧
      endsInFeed ['a'] = false ∧ endsInFeed ['a', '\n'] = true := by
  have matched : ((PreparedSource.new ['a']).matcher id (fun _ _ => [])
      (addsEmptyLine.map Chunk.meaning)).matchFrom 0 {} =
        .ok ⟨[⟨1, 0, [[]], 0⟩], [⟨0, 1, 1⟩], 1, true⟩ := by decide
  refine ⟨?_, by decide, by decide⟩
  change (((PreparedSource.new ['a']).matcher id (fun _ _ => [])
    (addsEmptyLine.map Chunk.meaning)).computeReplacements).map _ = _
  rw [ChunkMatcher.computeReplacements, matched]
  simp only [Except.map, ChunkCursor.intoSortedReplacements, ChunkCursor.sorted,
    List.mergeSort_singleton]
  decide

end Codex.ApplyPatch
