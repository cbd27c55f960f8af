import Codex.ApplyPatch.PatchSyntax
import Codex.ApplyPatch.Replacements

/-!
# Line edits

The edits of a parsed chunk line by line: each removed line deletes one line of the source, and
each added line is inserted where it is written. The groups that `chunk_edit_operations`
(`apply-patch/src/lib.rs:2007`) derives from the kinds of the lines make the same edits.
-/

namespace Codex.ApplyPatch

open Codex.Text Codex.Splice PatchSyntax

/-- The old lines of a chunk. -/
def oldTexts (lines : List ChunkLine) : List Text :=
  (lines.filter fun line => line.kind != .add).map ChunkLine.text

/-- The new lines of a chunk. -/
def newTexts (lines : List ChunkLine) : List Text :=
  (lines.filter fun line => line.kind != .remove).map ChunkLine.text

/-- The edits of marked lines, the first old line of which is at a position. -/
def lineEdits : Nat → List ChunkLine → List (Splice.Edit Text)
  | _, [] => []
  | position, line :: rest =>
      match line.kind with
      | .context => lineEdits (position + 1) rest
      | .remove => (position, 1, []) :: lineEdits (position + 1) rest
      | .add => (position, 0, [line.text]) :: lineEdits position rest

/-- The removed lines, each with its position. -/
def removedLines : Nat → List ChunkLine → List (Nat × Text)
  | _, [] => []
  | position, line :: rest =>
      match line.kind with
      | .context => removedLines (position + 1) rest
      | .remove => (position, line.text) :: removedLines (position + 1) rest
      | .add => removedLines position rest

/-- No line is context. -/
def Marked (lines : List ChunkLine) : Prop := ∀ line ∈ lines, line.kind ≠ .context

section Lines

variable {position : Nat} {lines front back : List ChunkLine}

@[simp] theorem oldTexts_append (front back : List ChunkLine) :
    oldTexts (front ++ back) = oldTexts front ++ oldTexts back := by
  simp [oldTexts]

@[simp] theorem newTexts_append (front back : List ChunkLine) :
    newTexts (front ++ back) = newTexts front ++ newTexts back := by
  simp [newTexts]

theorem lineEdits_append (position : Nat) (front back : List ChunkLine) :
    lineEdits position (front ++ back) =
      lineEdits position front ++ lineEdits (position + (oldTexts front).length) back := by
  induction front generalizing position with
  | nil => rfl
  | cons line rest ih =>
    cases kind : line.kind <;>
      simp [lineEdits, kind, ih, oldTexts, Nat.add_assoc, Nat.add_comm 1]

theorem removedLines_append (position : Nat) (front back : List ChunkLine) :
    removedLines position (front ++ back) =
      removedLines position front ++ removedLines (position + (oldTexts front).length) back := by
  induction front generalizing position with
  | nil => rfl
  | cons line rest ih =>
    cases kind : line.kind <;>
      simp [removedLines, kind, ih, oldTexts, Nat.add_assoc, Nat.add_comm 1]

/-- A removed line is the old line at its position. -/
theorem getElem?_of_mem_removedLines {removed : Nat × Text}
    (member : removed ∈ removedLines position lines) :
    position ≤ removed.1 ∧ removed.1 < position + (oldTexts lines).length ∧
      (oldTexts lines)[removed.1 - position]? = some removed.2 := by
  induction lines generalizing position with
  | nil => cases member
  | cons line rest ih =>
    have later : ∀ {text}, oldTexts (line :: rest) = text :: oldTexts rest →
        removed ∈ removedLines (position + 1) rest →
        position ≤ removed.1 ∧ removed.1 < position + (oldTexts (line :: rest)).length ∧
          (oldTexts (line :: rest))[removed.1 - position]? = some removed.2 := by
      intro text same member
      obtain ⟨low, high, found⟩ := ih member
      rw [same, List.length_cons, show removed.1 - position = removed.1 - (position + 1) + 1 by
        omega, List.getElem?_cons_succ]
      exact ⟨by omega, by omega, found⟩
    unfold removedLines at member
    cases kind : line.kind with
    | context =>
      rw [kind] at member
      exact @later line.text (by simp [oldTexts, kind]) member
    | add =>
      rw [kind] at member
      have same : oldTexts (line :: rest) = oldTexts rest := by simp [oldTexts, kind]
      rw [same]
      exact ih member
    | remove =>
      rw [kind] at member
      have same : oldTexts (line :: rest) = line.text :: oldTexts rest := by simp [oldTexts, kind]
      rcases List.mem_cons.mp member with rfl | old
      · rw [same]
        simp
      · exact later same old

/-- The line edits of a group without context follow each other. -/
theorem spells_lineEdits (marked : Marked lines) :
    Spells position (position + (oldTexts lines).length) (newTexts lines)
      (lineEdits position lines) := by
  induction lines generalizing position with
  | nil => exact ⟨rfl, rfl⟩
  | cons line rest ih =>
    have restMarked : Marked rest := fun other member => marked other (List.mem_cons_of_mem _ member)
    cases kind : line.kind with
    | context => exact absurd kind (marked line List.mem_cons_self)
    | add =>
      simp only [lineEdits, kind, oldTexts, newTexts, List.filter_cons, Spells]
      exact ⟨trivial, newTexts rest, by simp [newTexts], by simpa [oldTexts] using ih restMarked⟩
    | remove =>
      simp only [lineEdits, kind, oldTexts, newTexts, List.filter_cons, Spells]
      refine ⟨trivial, newTexts rest, by simp [newTexts], ?_⟩
      have spells := @ih (position + 1) restMarked
      rw [Nat.add_assoc, Nat.add_comm 1] at spells
      simpa [oldTexts] using spells

/-- A group that only adds. -/
theorem spells_of_oldTexts (bare : oldTexts lines = []) :
    Spells position position (newTexts lines) (lineEdits position lines) := by
  have marked : Marked lines := by
    intro line member isContext
    have none_ : ChunkLine.text line ∈ oldTexts lines :=
      List.mem_map_of_mem (List.mem_filter.mpr ⟨member, by simp [isContext]⟩)
    rw [bare] at none_
    cases none_
  have spells := @spells_lineEdits position lines marked
  rwa [bare, List.length_nil, Nat.add_zero] at spells

end Lines

/-- The line edits of an operation of a chunk whose old lines start at a position. -/
def OperationSpells (position : Nat) (lines : List ChunkLine) (operation : DiffOp)
    (part : List (Splice.Edit Text)) : Prop :=
  Spells (position + operation.oldStart) (position + operation.oldStart + operation.oldLen)
    (((newTexts lines).drop operation.newStart).take operation.newLen) part

/-- The operations make the edits of the lines before a context line. -/
structure Groups (position : Nat) (lines before : List ChunkLine) (operations : List DiffOp) :
    Prop where
  edited : ∀ operation ∈ operations, operation.isEqual = false
  spelled : ∃ parts, List.Forall₂ (OperationSpells position lines) operations parts ∧
    parts.flatten = lineEdits position before
  removed : ∀ removed ∈ removedLines position before, ∃ operation ∈ operations,
    position + operation.oldStart ≤ removed.1 ∧
      removed.1 < position + operation.oldStart + operation.oldLen

/-- The state of the loop after some lines: the open group has those since the last context
    line. -/
def ReadTo (position : Nat) (lines done : List ChunkLine) (state : EditGroups) : Prop :=
  ∃ before opened, done = before ++ opened ∧ Marked opened ∧
    state.old = (oldTexts done).length ∧ state.new = (newTexts done).length ∧
    state.group = (if opened = [] then none
      else some ((oldTexts before).length, (newTexts before).length)) ∧
    Groups position lines before state.operations

theorem groupOperation_isEqual (oldIndex oldLen newIndex newLen : Nat) :
    (groupOperation oldIndex oldLen newIndex newLen).isEqual = false := by
  unfold groupOperation
  split
  · rfl
  · split <;> rfl

@[simp] theorem groupOperation_newStart (oldIndex oldLen newIndex newLen : Nat) :
    (groupOperation oldIndex oldLen newIndex newLen).newStart = newIndex := by
  unfold groupOperation
  split
  · rfl
  · split <;> rfl

@[simp] theorem groupOperation_newLen (oldIndex oldLen newIndex newLen : Nat) :
    (groupOperation oldIndex oldLen newIndex newLen).newLen = newLen := by
  unfold groupOperation
  split
  · rfl
  · split
    next none_ => exact none_.symm
    · rfl

section Groups

variable {position : Nat} {lines before opened rest : List ChunkLine} {operations : List DiffOp}

/-- A group that a context line ends, or the end of the chunk. -/
theorem Groups.close (groups : Groups position lines before operations) (marked : Marked opened)
    (whole : lines = before ++ opened ++ rest) :
    Groups position lines (before ++ opened) (operations ++
      [groupOperation (oldTexts before).length (oldTexts opened).length (newTexts before).length
        (newTexts opened).length]) := by
  obtain ⟨edited, ⟨parts, spelled, flat⟩, removed⟩ := groups
  have own : OperationSpells position lines (groupOperation (oldTexts before).length
      (oldTexts opened).length (newTexts before).length (newTexts opened).length)
      (lineEdits (position + (oldTexts before).length) opened) := by
    have slice : ((newTexts lines).drop (newTexts before).length).take (newTexts opened).length =
        newTexts opened := by
      rw [whole, newTexts_append, newTexts_append, List.append_assoc, List.drop_left,
        List.take_left]
    simp only [OperationSpells, groupOperation_oldStart, groupOperation_oldLen,
      groupOperation_newStart, groupOperation_newLen, slice]
    exact spells_lineEdits marked
  refine ⟨?_, ⟨parts ++ [lineEdits (position + (oldTexts before).length) opened], ?_, ?_⟩, ?_⟩
  · intro operation member
    rcases List.mem_append.mp member with old | new
    · exact edited operation old
    · rw [List.mem_singleton.mp new]
      exact groupOperation_isEqual _ _ _ _
  · exact List.rel_append spelled (List.Forall₂.cons own List.Forall₂.nil)
  · rw [List.flatten_append, flat, lineEdits_append]
    simp
  intro line member
  rw [removedLines_append] at member
  rcases List.mem_append.mp member with old | new
  · obtain ⟨operation, listed, inside⟩ := removed line old
    exact ⟨operation, List.mem_append_left _ listed, inside⟩
  · obtain ⟨low, high, _⟩ := getElem?_of_mem_removedLines new
    refine ⟨_, List.mem_append_right _ (List.mem_singleton_self _), ?_⟩
    simpa using And.intro low high

/-- A context line changes nothing. -/
theorem Groups.context {line : ChunkLine} (groups : Groups position lines before operations)
    (isContext : line.kind = .context) : Groups position lines (before ++ [line]) operations := by
  obtain ⟨edited, ⟨parts, spelled, flat⟩, removed⟩ := groups
  refine ⟨edited, ⟨parts, spelled, ?_⟩, ?_⟩
  · rw [flat, lineEdits_append]
    simp [lineEdits, isContext]
  · intro other member
    rw [removedLines_append] at member
    simp only [removedLines, isContext, List.append_nil] at member
    exact removed other member

variable {done : List ChunkLine} {state after : EditGroups} {oldLen newLen : Nat}

/-- The group that is open is closed. -/
theorem ReadTo.close (read : ReadTo position lines done state) (whole : lines = done ++ rest)
    (stepped : state.step oldLen newLen .context = some after) :
    after.old = state.old + 1 ∧ after.new = state.new + 1 ∧ after.group = none ∧
      Groups position lines done after.operations := by
  obtain ⟨before, opened, rfl, marked, old, new, group, groups⟩ := read
  by_cases empty : opened = []
  · rw [if_pos empty] at group
    simp only [EditGroups.step, group, Option.some.injEq] at stepped
    obtain rfl := stepped
    subst empty
    rw [List.append_nil]
    exact ⟨rfl, rfl, rfl, groups⟩
  rw [if_neg empty] at group
  simp only [EditGroups.step, group] at stepped
  split at stepped
  · cases stepped
  · obtain rfl := Option.some_inj.mp stepped
    refine ⟨rfl, rfl, rfl, ?_⟩
    have closed := groups.close marked whole
    simpa [old, new] using closed

theorem Marked.append {line : ChunkLine} (marked : Marked lines) (isMarked : line.kind ≠ .context) :
    Marked (lines ++ [line]) := by
  intro other member
  rcases List.mem_append.mp member with earlier | last
  · exact marked other earlier
  · rwa [List.mem_singleton.mp last]

/-- The state after one more line. -/
theorem ReadTo.step {line : ChunkLine} (read : ReadTo position lines done state)
    (whole : lines = done ++ line :: rest)
    (stepped : state.step oldLen newLen line.kind = some after) :
    ReadTo position lines (done ++ [line]) after := by
  cases kind : line.kind with
  | context =>
    rw [kind] at stepped
    obtain ⟨old, new, group, groups⟩ := read.close whole stepped
    obtain ⟨_, _, _, _, oldRead, newRead, _⟩ := read
    refine ⟨done ++ [line], [], (List.append_nil _).symm, by simp [Marked], ?_, ?_, group,
      groups.context kind⟩
    · rw [old, oldRead, oldTexts_append, List.length_append]
      simp [oldTexts, kind]
    · rw [new, newRead, newTexts_append, List.length_append]
      simp [newTexts, kind]
  | add =>
    rw [kind] at stepped
    obtain ⟨before, opened, rfl, marked, old, new, group, groups⟩ := read
    obtain rfl := Option.some_inj.mp stepped
    refine ⟨before, opened ++ [line], List.append_assoc _ _ _, ?_, ?_, ?_, ?_, groups⟩
    · exact marked.append (kind ▸ UpdateLineKind.noConfusion)
    · simp [old, oldTexts, kind]
    · simp [new, newTexts, kind, Nat.add_assoc]
    · by_cases empty : opened = []
      · simp [group, empty, old, new]
      · simp [group, empty]
  | remove =>
    rw [kind] at stepped
    obtain ⟨before, opened, rfl, marked, old, new, group, groups⟩ := read
    obtain rfl := Option.some_inj.mp stepped
    refine ⟨before, opened ++ [line], List.append_assoc _ _ _, ?_, ?_, ?_, ?_, groups⟩
    · exact marked.append (kind ▸ UpdateLineKind.noConfusion)
    · simp [old, oldTexts, kind, Nat.add_assoc]
    · simp [new, newTexts, kind]
    · by_cases empty : opened = []
      · simp [group, empty, old, new]
      · simp [group, empty]

theorem ReadTo.run (read : ReadTo position lines done state) (whole : lines = done ++ rest)
    (run : (rest.map ChunkLine.kind).foldlM (EditGroups.step oldLen newLen) state = some after) :
    ReadTo position lines lines after := by
  induction rest generalizing done state with
  | nil =>
    obtain rfl := Option.some_inj.mp run
    rw [List.append_nil] at whole
    rwa [← whole] at read
  | cons line rest ih =>
    rw [List.map_cons, List.foldlM_cons] at run
    obtain ⟨middle, stepped, later⟩ := Option.bind_eq_some_iff.mp run
    exact ih (read.step whole stepped) (by simp [whole]) later

end Groups

/-- The operations of a parsed chunk make its line edits. -/
theorem groups_of_chunkEditOperations {diffSlices : List Text → List Text → List DiffOp}
    {chunk : Chunk} {operations : List DiffOp} (nonempty : chunk.lines ≠ []) (position : Nat)
    (edited : chunkEditOperations diffSlices chunk.meaning = some operations) :
    Groups position chunk.lines chunk.lines operations := by
  have kinds : chunk.meaning.lineKinds = chunk.lines.map ChunkLine.kind := rfl
  unfold chunkEditOperations at edited
  rw [kinds, if_neg (by simp [nonempty]), List.foldlM_append] at edited
  cases run : (chunk.lines.map ChunkLine.kind).foldlM (EditGroups.step
      chunk.meaning.oldLines.length chunk.meaning.newLines.length) {} with
  | none =>
    rw [run] at edited
    cases edited
  | some state =>
    have start : ReadTo position chunk.lines [] {} :=
      ⟨[], [], rfl, by simp [Marked], rfl, rfl, rfl, by simp, ⟨[], List.Forall₂.nil, rfl⟩,
        by simp [removedLines]⟩
    have read := start.run (List.nil_append _).symm run
    rw [run] at edited
    simp only [Option.bind_eq_bind, Option.bind_some, List.foldlM_cons, List.foldlM_nil] at edited
    cases closed : state.step chunk.meaning.oldLines.length chunk.meaning.newLines.length
        .context with
    | none =>
      rw [closed] at edited
      cases edited
    | some after =>
      rw [closed] at edited
      simp only [Option.bind_some] at edited
      have groups := (read.close (List.append_nil _).symm closed).2.2.2
      change (if _ then none else some after.operations) = some operations at edited
      split at edited
      · cases edited
      · rwa [← Option.some_inj.mp edited]

namespace ChunkMatcher

variable {matcher : ChunkMatcher} {chunkIndex : Nat} {claimed : List ClaimedSpan}
  {replacements : List Replacement} {chunk : Chunk}

/-- Every parsed chunk has ordered operations. -/
theorem operationsOrdered_of_written {written : List Chunk}
    (chunks : matcher.chunks = written.map Chunk.meaning) : OperationsOrdered matcher := by
  intro chunkIndex operations old edited
  have parsed : ∃ chunk, matcher.chunk chunkIndex = Chunk.meaning chunk := by
    rw [ChunkMatcher.chunk, chunks, List.getD_eq_getElem?_getD, List.getElem?_map]
    cases written[chunkIndex]? with
    | none => exact ⟨⟨none, [], false⟩, rfl⟩
    | some chunk => exact ⟨chunk, rfl⟩
  obtain ⟨chunk, same⟩ := parsed
  rw [same] at old edited ⊢
  have nonempty : chunk.lines ≠ [] := by
    rintro empty
    exact old (by simp [Chunk.meaning, empty])
  exact chunkEditOperations_orderedWithin_of_kinds (by simp [Chunk.meaning, nonempty]) edited

/-- What a textual chunk does at its site: its replacements spell its line edits, and its removed
    lines are those of the source. -/
structure EditsAt (matcher : ChunkMatcher) (claimed : List ClaimedSpan) (chunkIndex : Nat)
    (chunk : Chunk) (replacements : List Replacement) (site : ChunkSite)
    (parts : List (List (Splice.Edit Text))) : Prop where
  may : MayPlace matcher chunkIndex site
  spelled : List.Forall₂ (fun replacement part => Spells replacement.start
    (replacement.start + replacement.oldLen) replacement.newLines part) replacements parts
  flat : parts.flatten = lineEdits site.start chunk.lines
  removed : ∀ removed ∈ removedLines site.start chunk.lines,
    matcher.originalLines[removed.1]? = some removed.2
  claims : matcher.bareAddition chunkIndex site = false → matcher.claim chunkIndex site ∈ claimed
  bare : matcher.bareAddition chunkIndex site = true →
    ∀ claim ∈ claimed, claim.chunkOrdinal ≠ chunkIndex + 1

theorem Contributes.spelled {site : ChunkSite} {order : Nat}
    (contributes : Contributes matcher chunkIndex site order replacements)
    (written : matcher.chunk chunkIndex = chunk.meaning) (siteOf : SiteOf matcher chunkIndex site) :
    ∃ parts, List.Forall₂ (fun replacement part => Spells replacement.start
        (replacement.start + replacement.oldLen) replacement.newLines part) replacements parts ∧
      parts.flatten = lineEdits site.start chunk.lines ∧
      ∀ removed ∈ removedLines site.start chunk.lines,
        matcher.originalLines[removed.1]? = some removed.2 := by
  have old : (matcher.chunk chunkIndex).oldLines = oldTexts chunk.lines := by
    rw [written]
    rfl
  have new : (matcher.chunk chunkIndex).newLines = newTexts chunk.lines := by
    rw [written]
    rfl
  by_cases bare : (matcher.chunk chunkIndex).oldLines = []
  · rw [contributes.addition bare]
    rw [old] at bare
    refine ⟨[lineEdits site.start chunk.lines], List.Forall₂.cons ?_ List.Forall₂.nil, by simp, ?_⟩
    · rw [new]
      exact spells_of_oldTexts bare
    · intro removed member
      have inside := getElem?_of_mem_removedLines member
      rw [bare] at inside
      cases inside.2.2
  obtain ⟨operations, edited, rfl, exact_⟩ := contributes.edit bare
  have nonempty : chunk.lines ≠ [] := by
    intro empty
    rw [old, empty] at bare
    exact bare rfl
  rw [written] at edited
  obtain ⟨notEqual, ⟨parts, spelled, flat⟩, removed⟩ :=
    groups_of_chunkEditOperations nonempty site.start edited
  have all : (operations.filter fun operation => !operation.isEqual) = operations :=
    List.filter_eq_self.mpr fun operation member => by simp [notEqual operation member]
  refine ⟨parts, ?_, flat, ?_⟩
  · rw [all, List.forall₂_map_left_iff]
    refine spelled.imp ?_
    intro operation part own
    simp only [opReplacement, new]
    exact own
  intro line member
  obtain ⟨operation, listed, low, high⟩ := removed line member
  obtain ⟨after, inside, found⟩ := getElem?_of_mem_removedLines member
  have same := exact_ operation listed (notEqual operation listed) (line.1 - site.start)
    (by omega) (by omega)
  have window := (siteOf.lines bare).inside
  have position : site.start + (line.1 - site.start) = line.1 := by omega
  rw [old, position, List.getD_eq_getElem?_getD, found, Option.getD_some] at same
  rw [old] at window
  rw [same, List.getD_eq_getElem?_getD, List.getElem?_eq_getElem (by omega), Option.getD_some]

theorem Writes.editsAt (writes : Writes matcher claimed chunkIndex replacements)
    (written : matcher.chunk chunkIndex = chunk.meaning)
    (textual : isTextual chunk.meaning = true) :
    ∃ site parts, EditsAt matcher claimed chunkIndex chunk replacements site parts := by
  cases writes with
  | range claim handle isRange member ordinal =>
    rw [written] at isRange
    obtain ⟨context, context_, stripped⟩ := Option.bind_eq_some_iff.mp isRange
    rw [stripPrefix_eq_some] at stripped
    have ranged : contextStartsWith CODEX_RANGE chunk.meaning = true := by
      simp [contextStartsWith, context_, startsWith, stripped]
    simp [isTextual, ranged] at textual
  | site site _ may claims member contributes =>
    obtain ⟨parts, spelled, flat, removed⟩ := contributes.spelled written may.siteOf
    refine ⟨site, parts, may, spelled, flat, removed, fun _ => member, ?_⟩
    intro bare
    rw [claims] at bare
    cases bare
  | bare site may bare claimsNone =>
    obtain ⟨anchor, lines⟩ := mem_bareAddition bare
    have contributes : Contributes matcher chunkIndex site
        (furthest (claimed.filter fun claim => decide (claim.chunkOrdinal ≤ chunkIndex)))
        [⟨matcher.originalLines.length, 0, (matcher.chunk chunkIndex).newLines,
          furthest (claimed.filter fun claim => decide (claim.chunkOrdinal ≤ chunkIndex))⟩] := by
      refine ⟨fun _ => ?_, fun old => absurd lines old⟩
      rw [may.siteOf.bare lines anchor]
    obtain ⟨parts, spelled, flat, removed⟩ := contributes.spelled written may.siteOf
    refine ⟨site, parts, may, spelled, flat, removed, ?_, fun _ => claimsNone⟩
    intro claims
    rw [bare] at claims
    cases claims

end ChunkMatcher

end Codex.ApplyPatch
