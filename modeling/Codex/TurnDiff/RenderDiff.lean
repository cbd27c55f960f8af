import Codex.Lib.TextBytes
import Codex.Lib.UnifiedDiff
import Codex.TurnDiff.Tracker

/-!
# Printed diffs

`core/src/turn_diff_tracker.rs`: `render_diff_named`, `git_hunk_range` and `git_quote_path`. The
edit scripts and the changes of the `similar` crate and the ids of blobs are parameters.
-/

namespace Codex.TurnDiff

open Text UnifiedDiff

variable {Path Uri : Type} [DecidableEq Path]

def octalDigit (value : Nat) : Char := Char.ofNat (48 + value)

/-- A byte of a quoted path (`turn_diff_tracker.rs:1172`). -/
def gitQuoteByte (byte : UInt8) : Text :=
  if byte = 34 then "\\\"".toList
  else if byte = 92 then "\\\\".toList
  else if byte = 9 then "\\t".toList
  else if byte = 10 then "\\n".toList
  else if byte = 13 then "\\r".toList
  else if 32 ≤ byte ∧ byte ≤ 126 then [ofByte byte]
  else ['\\', octalDigit (byte.toNat / 64), octalDigit (byte.toNat / 8 % 8),
    octalDigit (byte.toNat % 8)]

/-- `git_quote_path` (`turn_diff_tracker.rs:1167`). -/
def gitQuotePath (path : Text) : Text :=
  if !(bytes path).any fun byte => !(32 ≤ byte && byte < 127) || byte = 34 || byte = 92 then path
  else "\"".toList ++ (bytes path).flatMap gitQuoteByte ++ "\"".toList

/-- `DiffOp` of `similar`. -/
inductive DiffOp where
  | equal (oldIndex newIndex len : Nat)
  | delete (oldIndex oldLen newIndex : Nat)
  | insert (oldIndex newIndex newLen : Nat)
  | replace (oldIndex oldLen newIndex newLen : Nat)
  deriving DecidableEq, Repr

namespace DiffOp

/-- `DiffOp::old_range`. -/
def oldRange : DiffOp → Nat × Nat
  | equal oldIndex _ len => (oldIndex, oldIndex + len)
  | delete oldIndex oldLen _ => (oldIndex, oldIndex + oldLen)
  | insert oldIndex _ _ => (oldIndex, oldIndex)
  | replace oldIndex oldLen _ _ => (oldIndex, oldIndex + oldLen)

/-- `DiffOp::new_range`. -/
def newRange : DiffOp → Nat × Nat
  | equal _ newIndex len => (newIndex, newIndex + len)
  | delete _ _ newIndex => (newIndex, newIndex)
  | insert _ newIndex newLen => (newIndex, newIndex + newLen)
  | replace _ _ newIndex newLen => (newIndex, newIndex + newLen)

/-- What `TextDiff::iter_changes` promises: a replacement is a deletion and an insertion. -/
def changes (oldLines newLines : List Text) : DiffOp → List Change
  | equal oldIndex _ len =>
      ((oldLines.drop oldIndex).take len).map fun line => (.equal, line)
  | delete oldIndex oldLen _ =>
      ((oldLines.drop oldIndex).take oldLen).map fun line => (.delete, line)
  | insert _ newIndex newLen =>
      ((newLines.drop newIndex).take newLen).map fun line => (.insert, line)
  | replace oldIndex oldLen newIndex newLen =>
      (((oldLines.drop oldIndex).take oldLen).map fun line => (.delete, line)) ++
        ((newLines.drop newIndex).take newLen).map fun line => (.insert, line)

end DiffOp

/-- `git_hunk_range` (`turn_diff_tracker.rs:1187`). -/
def gitHunkRange (start stop : Nat) : Text :=
  if stop - start = 0 then Nat.toDigits 10 start ++ ",0".toList
  else if stop - start = 1 then Nat.toDigits 10 (start + 1)
  else Nat.toDigits 10 (start + 1) ++ ",".toList ++ Nat.toDigits 10 (stop - start)

/-- A change of a hunk (`turn_diff_tracker.rs:1103`). -/
def renderChange (change : Change) : Text :=
  change.1.mark :: change.2 ++
    if change.2.getLast? = some '\n' then [] else "\n\\ No newline at end of file\n".toList

/-- A group of operations (`turn_diff_tracker.rs:1095`). -/
def renderGroup (iterChanges : DiffOp → List Change) (group : List DiffOp) : Option Text :=
  group.head?.bind fun first =>
    group.getLast?.map fun last =>
      "@@ -".toList ++ gitHunkRange first.oldRange.1 last.oldRange.2 ++ " +".toList ++
        gitHunkRange first.newRange.1 last.newRange.2 ++ " @@\n".toList ++
        (group.flatMap fun op => (iterChanges op).flatMap renderChange)

/-- The loop over the groups. -/
def renderGroups (iterChanges : DiffOp → List Change) (groups : List (List DiffOp)) :
    Option Text :=
  (groups.mapM (renderGroup iterChanges)).map List.flatten

def ZERO_OID : Text := "0000000000000000000000000000000000000000".toList

def DEV_NULL : Text := "/dev/null".toList

/-- `git_blob_oid`, and of `similar` `diff_slices` and `grouped_ops(3)` together and
    `iter_changes`. -/
structure DiffHost where
  gitBlobOid : Text → Text
  groupedOps : List Text → List Text → List (List DiffOp)
  iterChanges : List Text → List Text → DiffOp → List Change

/-- `render_diff_named` (`turn_diff_tracker.rs:1017`). -/
def renderDiffNamed (host : DiffHost) (fileMode : TrackedPath Path → Option Text)
    (leftPath : TrackedPath Path) (leftContent : Option TrackedContent)
    (rightPath : TrackedPath Path) (rightContent : Option TrackedContent)
    (leftDisplay rightDisplay : Text) : Option Text :=
  let leftText := text leftContent
  let rightText := text rightContent
  if leftText = rightText ∧ (leftPath = rightPath ∨ leftText = none) then none
  else
    let leftHeader := gitQuotePath ("a/".toList ++ leftDisplay)
    let rightHeader := gitQuotePath ("b/".toList ++ rightDisplay)
    let names := "diff --git ".toList ++ leftHeader ++ " ".toList ++ rightHeader ++ "\n".toList
    if leftText = rightText then
      some (names ++ "similarity index 100%\nrename from ".toList ++ gitQuotePath leftDisplay ++
        "\nrename to ".toList ++ gitQuotePath rightDisplay ++ "\n".toList)
    else
      let leftOid := (leftText.map host.gitBlobOid).getD ZERO_OID
      let rightOid := (rightText.map host.gitBlobOid).getD ZERO_OID
      let newMode := if leftContent.isNone then
          ((rightContent.bind TrackedContent.mode).or (fileMode rightPath)).map fun mode =>
            "new file mode ".toList ++ mode ++ "\n".toList
        else none
      let deletedMode := if rightContent.isNone then
          ((leftContent.bind TrackedContent.mode).or (fileMode leftPath)).map fun mode =>
            "deleted file mode ".toList ++ mode ++ "\n".toList
        else none
      let oldHeader := if leftText.isSome then leftHeader else DEV_NULL
      let newHeader := if rightText.isSome then rightHeader else DEV_NULL
      let oldLines := splitInclusive (leftText.getD [])
      let newLines := splitInclusive (rightText.getD [])
      (renderGroups (host.iterChanges oldLines newLines)
        (host.groupedOps oldLines newLines)).map fun hunks =>
        names ++ newMode.getD [] ++ deletedMode.getD [] ++
          "index ".toList ++ leftOid ++ "..".toList ++ rightOid ++ "\n".toList ++
          "--- ".toList ++ oldHeader ++ "\n+++ ".toList ++ newHeader ++ "\n".toList ++ hunks

/-- Operations follow each other from one pair of positions to another: those that keep lines keep
    the same ones of both sides. -/
inductive Follows (oldLines newLines : List Text) : Nat → Nat → List DiffOp → Nat → Nat → Prop where
  | nil {old new : Nat} : Follows oldLines newLines old new [] old new
  | equal {old new oldStop newStop : Nat} {ops : List DiffOp} (len : Nat)
      (oldFits : old + len ≤ oldLines.length) (newFits : new + len ≤ newLines.length)
      (same : (oldLines.drop old).take len = (newLines.drop new).take len)
      (later : Follows oldLines newLines (old + len) (new + len) ops oldStop newStop) :
      Follows oldLines newLines old new (.equal old new len :: ops) oldStop newStop
  | delete {old new oldStop newStop : Nat} {ops : List DiffOp} (len : Nat)
      (oldFits : old + len ≤ oldLines.length)
      (later : Follows oldLines newLines (old + len) new ops oldStop newStop) :
      Follows oldLines newLines old new (.delete old len new :: ops) oldStop newStop
  | insert {old new oldStop newStop : Nat} {ops : List DiffOp} (len : Nat)
      (newFits : new + len ≤ newLines.length)
      (later : Follows oldLines newLines old (new + len) ops oldStop newStop) :
      Follows oldLines newLines old new (.insert old new len :: ops) oldStop newStop
  | replace {old new oldStop newStop : Nat} {ops : List DiffOp} (oldLen newLen : Nat)
      (oldFits : old + oldLen ≤ oldLines.length) (newFits : new + newLen ≤ newLines.length)
      (later : Follows oldLines newLines (old + oldLen) (new + newLen) ops oldStop newStop) :
      Follows oldLines newLines old new (.replace old oldLen new newLen :: ops) oldStop newStop

/-- Groups of an edit script with context: between them, in front of the first and behind the last
    only lines that both sides share are left out. -/
inductive GroupedFrom (oldLines newLines : List Text) : Nat → Nat → List (List DiffOp) → Prop where
  | rest {old new : Nat} (same : oldLines.drop old = newLines.drop new) :
      GroupedFrom oldLines newLines old new []
  | group {old new oldStop newStop : Nat} {group : List DiffOp} {groups : List (List DiffOp)}
      (left : Nat) (oldFits : old + left ≤ oldLines.length) (newFits : new + left ≤ newLines.length)
      (same : (oldLines.drop old).take left = (newLines.drop new).take left)
      (nonempty : group ≠ [])
      (follows : Follows oldLines newLines (old + left) (new + left) group oldStop newStop)
      (later : GroupedFrom oldLines newLines oldStop newStop groups) :
      GroupedFrom oldLines newLines old new (group :: groups)

/-- The changes of operations. -/
def changesOf (oldLines newLines : List Text) (ops : List DiffOp) : List Change :=
  ops.flatMap (DiffOp.changes oldLines newLines)

variable {oldLines newLines : List Text} {old new oldStop newStop : Nat} {ops : List DiffOp}

theorem drop_split (lines : List Text) (start len : Nat) :
    lines.drop start = (lines.drop start).take len ++ lines.drop (start + len) := by
  rw [← List.drop_drop, List.take_append_drop]

variable {len : Nat}

theorem length_part {lines : List Text} {start : Nat} (fits : start + len ≤ lines.length) :
    ((lines.drop start).take len).length = len := by
  rw [List.length_take, List.length_drop]
  omega

/-- What the changes of operations are, and where they end. -/
structure Spans (oldLines newLines : List Text) (old new : Nat) (changes : List Change)
    (oldStop newStop : Nat) : Prop where
  oldLines_drop : oldLines.drop old = oldSide changes ++ oldLines.drop oldStop
  newLines_drop : newLines.drop new = newSide changes ++ newLines.drop newStop
  oldStop_eq : oldStop = old + (oldSide changes).length
  newStop_eq : newStop = new + (newSide changes).length

theorem Spans.append {oldMiddle newMiddle : Nat} {first second : List Change}
    (spansFirst : Spans oldLines newLines old new first oldMiddle newMiddle)
    (spansSecond : Spans oldLines newLines oldMiddle newMiddle second oldStop newStop) :
    Spans oldLines newLines old new (first ++ second) oldStop newStop where
  oldLines_drop := by
    rw [spansFirst.oldLines_drop, spansSecond.oldLines_drop, oldSide_append, List.append_assoc]
  newLines_drop := by
    rw [spansFirst.newLines_drop, spansSecond.newLines_drop, newSide_append, List.append_assoc]
  oldStop_eq := by
    rw [spansSecond.oldStop_eq, spansFirst.oldStop_eq, oldSide_append, List.length_append,
      Nat.add_assoc]
  newStop_eq := by
    rw [spansSecond.newStop_eq, spansFirst.newStop_eq, newSide_append, List.length_append,
      Nat.add_assoc]

/-- Lines of the old side that are deleted. -/
theorem spans_delete (fits : old + len ≤ oldLines.length) :
    Spans oldLines newLines old new (((oldLines.drop old).take len).map fun line => (.delete, line))
      (old + len) new where
  oldLines_drop := by
    rw [oldSide_tagged, if_neg (by decide)]
    exact drop_split oldLines old len
  newLines_drop := by
    rw [newSide_tagged, if_pos rfl]
    rfl
  oldStop_eq := by rw [oldSide_tagged, if_neg (by decide), length_part fits]
  newStop_eq := by
    rw [newSide_tagged, if_pos rfl]
    rfl

/-- Lines of the new side that are inserted. -/
theorem spans_insert (fits : new + len ≤ newLines.length) :
    Spans oldLines newLines old new (((newLines.drop new).take len).map fun line => (.insert, line))
      old (new + len) where
  oldLines_drop := by
    rw [oldSide_tagged, if_pos rfl]
    rfl
  newLines_drop := by
    rw [newSide_tagged, if_neg (by decide)]
    exact drop_split newLines new len
  oldStop_eq := by
    rw [oldSide_tagged, if_pos rfl]
    rfl
  newStop_eq := by rw [newSide_tagged, if_neg (by decide), length_part fits]

/-- Lines that both sides share. -/
theorem spans_equal (oldFits : old + len ≤ oldLines.length)
    (same : (oldLines.drop old).take len = (newLines.drop new).take len) :
    Spans oldLines newLines old new (((oldLines.drop old).take len).map fun line => (.equal, line))
      (old + len) (new + len) where
  oldLines_drop := by
    rw [oldSide_tagged, if_neg (by decide)]
    exact drop_split oldLines old len
  newLines_drop := by
    rw [newSide_tagged, if_neg (by decide), same]
    exact drop_split newLines new len
  oldStop_eq := by rw [oldSide_tagged, if_neg (by decide), length_part oldFits]
  newStop_eq := by rw [newSide_tagged, if_neg (by decide), length_part oldFits]

theorem Follows.spans (follows : Follows oldLines newLines old new ops oldStop newStop) :
    Spans oldLines newLines old new (changesOf oldLines newLines ops) oldStop newStop := by
  induction follows with
  | nil => exact ⟨rfl, rfl, rfl, rfl⟩
  | equal len oldFits newFits same _ ih => exact (spans_equal oldFits same).append ih
  | delete len oldFits _ ih => exact (spans_delete oldFits).append ih
  | insert len newFits _ ih => exact (spans_insert newFits).append ih
  | replace oldLen newLen oldFits newFits _ ih =>
    exact ((spans_delete oldFits).append (spans_insert newFits)).append ih

/-- The first operation starts where the operations do. -/
theorem Follows.first {first : DiffOp}
    (follows : Follows oldLines newLines old new (first :: ops) oldStop newStop) :
    first.oldRange.1 = old ∧ first.newRange.1 = new := by
  cases follows <;> exact ⟨rfl, rfl⟩

theorem Follows.last {last : DiffOp}
    (follows : Follows oldLines newLines old new ops oldStop newStop)
    (isLast : ops.getLast? = some last) :
    last.oldRange.2 = oldStop ∧ last.newRange.2 = newStop := by
  -- The last operation is the first one, or that of the operations behind it.
  have step : ∀ (op : DiffOp) {later : List DiffOp} {oldMiddle newMiddle oldEnd newEnd : Nat},
      op.oldRange.2 = oldMiddle → op.newRange.2 = newMiddle →
      Follows oldLines newLines oldMiddle newMiddle later oldEnd newEnd →
      (later.getLast? = some last → last.oldRange.2 = oldEnd ∧ last.newRange.2 = newEnd) →
      (op :: later).getLast? = some last →
      last.oldRange.2 = oldEnd ∧ last.newRange.2 = newEnd := by
    intro op later oldMiddle newMiddle oldEnd newEnd isOld isNew following ih isLast
    cases later with
    | nil =>
      cases following
      obtain rfl := Option.some.inj isLast
      exact ⟨isOld, isNew⟩
    | cons next later =>
      rw [List.getLast?_cons_cons] at isLast
      exact ih isLast
  induction follows with
  | nil => cases isLast
  | equal len _ _ _ later ih => exact step (.equal _ _ len) rfl rfl later ih isLast
  | delete len _ later ih => exact step (.delete _ len _) rfl rfl later ih isLast
  | insert len _ later ih => exact step (.insert _ _ len) rfl rfl later ih isLast
  | replace oldLen newLen _ _ later ih =>
    exact step (.replace _ oldLen _ newLen) rfl rfl later ih isLast

theorem mem_of_changes {op : DiffOp} {change : Change}
    (member : change ∈ op.changes oldLines newLines) :
    change.2 ∈ oldLines ∨ change.2 ∈ newLines := by
  have part : ∀ {lines : List Text} {start len : Nat} {tag : Tag},
      change ∈ ((lines.drop start).take len).map (fun line => (tag, line)) →
      change.2 ∈ lines := by
    intro lines start len tag inside
    obtain ⟨line, isLine, rfl⟩ := List.mem_map.mp inside
    exact List.mem_of_mem_drop (List.mem_of_mem_take isLine)
  cases op with
  | equal _ _ _ => exact Or.inl (part member)
  | delete _ _ _ => exact Or.inl (part member)
  | insert _ _ _ => exact Or.inr (part member)
  | replace _ _ _ _ => exact (List.mem_append.mp member).imp part part

/-- The range of a header. -/
def hunkRange (start stop : Nat) : HunkRange :=
  ⟨if stop - start = 0 then start else start + 1, stop - start⟩

theorem gitHunkRange_eq (start stop : Nat) :
    gitHunkRange start stop = rangeText (hunkRange start stop) := by
  rw [gitHunkRange, rangeText, hunkRange]
  by_cases none : stop - start = 0
  · rw [if_pos none, if_pos none, none, if_neg (by simp), Nat.toDigits_zero]
    rfl
  · rw [if_neg none, if_neg none]
    by_cases one : stop - start = 1
    · rw [if_pos one, if_pos one]
    · rw [if_neg one, if_neg one, List.append_assoc]
      rfl

theorem hunkRange_before (start stop : Nat) : (hunkRange start stop).before = start := by
  rw [hunkRange, HunkRange.before]
  by_cases none : stop - start = 0
  · rw [if_pos none, if_pos none]
  · rw [if_neg none, if_neg none, Nat.add_sub_cancel]

theorem renderChange_eq (change : Change) : renderChange change = (linesOf change).flatten := by
  rw [renderChange, linesOf]
  split
  · rw [List.flatten_singleton, List.append_nil]
  · rw [List.flatten_cons, List.flatten_singleton, List.cons_append, List.cons_append,
      List.append_assoc]
    rfl

theorem flatMap_renderChange (changes : List Change) :
    changes.flatMap renderChange = (changes.flatMap linesOf).flatten := by
  induction changes with
  | nil => rfl
  | cons change changes ih =>
    rw [List.flatMap_cons, List.flatMap_cons, List.flatten_append, renderChange_eq, ih]

/-- The hunk that is printed of a group. -/
def hunkOf (oldLines newLines : List Text) (old new oldStop newStop : Nat)
    (group : List DiffOp) : Hunk :=
  ⟨hunkRange old oldStop, hunkRange new newStop, changesOf oldLines newLines group⟩

theorem renderGroup_eq {group : List DiffOp} (nonempty : group ≠ [])
    (follows : Follows oldLines newLines old new group oldStop newStop) :
    renderGroup (DiffOp.changes oldLines newLines) group =
      some (hunkLines (hunkOf oldLines newLines old new oldStop newStop group)).flatten := by
  obtain ⟨first, later, rfl⟩ := List.exists_cons_of_ne_nil nonempty
  obtain ⟨last, isLast⟩ : ∃ last, (first :: later).getLast? = some last :=
    ⟨_, List.getLast?_eq_some_getLast nonempty⟩
  rw [renderGroup, List.head?_cons, Option.bind_some, isLast, Option.map_some,
    (follows.first).1, (follows.first).2, (follows.last isLast).1, (follows.last isLast).2,
    gitHunkRange_eq, gitHunkRange_eq, hunkLines, List.flatten_cons, headerText_eq]
  have changes : ((first :: later).flatMap fun op =>
      (op.changes oldLines newLines).flatMap renderChange) =
      ((changesOf oldLines newLines (first :: later)).flatMap linesOf).flatten := by
    rw [← flatMap_renderChange, changesOf, List.flatMap_assoc]
  rw [changes]
  rfl

/-- The hunks that are printed turn the one side into the other. -/
theorem GroupedFrom.turns {groups : List (List DiffOp)}
    (grouped : GroupedFrom oldLines newLines old new groups) :
    ∃ hunks, renderGroups (DiffOp.changes oldLines newLines) groups =
        some (hunks.flatMap hunkLines).flatten ∧
      Turns old new hunks (oldLines.drop old) (newLines.drop new) ∧
      ∀ hunk ∈ hunks, ∀ change ∈ hunk.changes, change.2 ∈ oldLines ∨ change.2 ∈ newLines := by
  induction grouped with
  | @rest old new same =>
    refine ⟨[], rfl, ?_, List.forall_mem_nil _⟩
    rw [same]
    exact .rest _
  | @group old new oldStop newStop group groups left oldFits newFits same nonempty follows _ ih =>
    obtain ⟨hunks, isText, turns, fromSides⟩ := ih
    have spans := follows.spans
    refine ⟨hunkOf oldLines newLines (old + left) (new + left) oldStop newStop group :: hunks,
      ?_, ?_, ?_⟩
    · rw [renderGroups, Option.map_eq_some_iff] at isText
      obtain ⟨texts, isTexts, isFlat⟩ := isText
      rw [renderGroups, List.mapM_cons, renderGroup_eq nonempty follows, isTexts]
      change some (_ ++ texts.flatten) = _
      rw [isFlat, List.flatMap_cons, List.flatten_append]
    · have counted : (hunkOf oldLines newLines (old + left) (new + left) oldStop newStop
          group).Counted := by
        refine ⟨?_, ?_⟩
        · rw [← length_oldSide]
          exact Nat.sub_eq_of_eq_add' spans.oldStop_eq
        · rw [← length_newSide]
          exact Nat.sub_eq_of_eq_add' spans.newStop_eq
      have oldWhole := drop_split oldLines old left
      have newWhole := drop_split newLines new left
      rw [spans.oldLines_drop] at oldWhole
      rw [spans.newLines_drop, ← same] at newWhole
      rw [oldWhole, newWhole]
      refine Turns.hunk _ counted ?_ ?_ ?_
      · rw [length_part oldFits]
        exact hunkRange_before _ _
      · rw [length_part oldFits]
        exact hunkRange_before _ _
      have isOld : (hunkRange (old + left) oldStop).before +
          (hunkRange (old + left) oldStop).count = oldStop := by
        rw [hunkRange_before, hunkRange, spans.oldStop_eq, Nat.add_sub_cancel_left]
      have isNew : (hunkRange (new + left) newStop).before +
          (hunkRange (new + left) newStop).count = newStop := by
        rw [hunkRange_before, hunkRange, spans.newStop_eq, Nat.add_sub_cancel_left]
      change Turns ((hunkRange (old + left) oldStop).before +
        (hunkRange (old + left) oldStop).count) ((hunkRange (new + left) newStop).before +
        (hunkRange (new + left) newStop).count) hunks _ _
      rw [isOld, isNew]
      exact turns
    · refine List.forall_mem_cons.mpr ⟨fun change member => ?_, fromSides⟩
      obtain ⟨op, _, inside⟩ := List.mem_flatMap.mp member
      exact mem_of_changes inside

/-- The hunks that are printed of an edit script make the one text of the other. -/
theorem renderGroups_patch {left right : Text} {groups : List (List DiffOp)}
    {iterChanges : DiffOp → List Change}
    (grouped : GroupedFrom (splitInclusive left) (splitInclusive right) 0 0 groups)
    (iterates : ∀ group ∈ groups, ∀ op ∈ group,
      iterChanges op = op.changes (splitInclusive left) (splitInclusive right)) :
    ∃ hunks, renderGroups iterChanges groups = some hunks ∧ patch hunks left = some right := by
  obtain ⟨hunks, isText, turns, fromSides⟩ := grouped.turns
  have same : renderGroups iterChanges groups = renderGroups
      (DiffOp.changes (splitInclusive left) (splitInclusive right)) groups := by
    have whole : ∀ given, renderGroups given groups =
        ((groups.map (renderGroup given)).mapM id).map List.flatten := by
      intro given
      rw [renderGroups, List.mapM_map, Function.id_comp]
    rw [whole, whole, List.map_congr_left]
    intro group member
    rw [renderGroup, renderGroup, List.flatMap_congr]
    intro op isOp
    rw [iterates group member op isOp]
  refine ⟨_, same.trans isText, patch_of_turns turns ?_⟩
  intro hunk isHunk change member
  exact (fromSides hunk isHunk change member).elim isLine_of_mem isLine_of_mem

/-- Where the reader of a quoted path is: among its bytes, behind a backslash, or in the digits of
    an escaped byte. -/
inductive Unquoting where
  | plain
  | escaped
  | octal (value left : Nat)
  deriving DecidableEq, Repr

/-- The bytes of the escapes of one letter. -/
def simpleEscape (c : Char) : Option UInt8 :=
  [('a', (7 : UInt8)), ('b', 8), ('t', 9), ('n', 10), ('v', 11), ('f', 12), ('r', 13), ('"', 34),
    ('\\', 92)].lookup c

/-- What git reads behind an opening quote, up to the quote that closes the path. -/
def unquoteFrom : Unquoting → Text → Option (List UInt8)
  | _, [] => none
  | .plain, c :: rest =>
      if c = '"' then if rest = [] then some [] else none
      else if c = '\\' then unquoteFrom .escaped rest
      else (unquoteFrom .plain rest).map fun read => String.utf8EncodeChar c ++ read
  | .escaped, c :: rest =>
      if '0' ≤ c ∧ c ≤ '3' then unquoteFrom (.octal (c.toNat - 48) 2) rest
      else (simpleEscape c).bind fun byte => (unquoteFrom .plain rest).map (List.cons byte)
  | .octal value left, c :: rest =>
      if '0' ≤ c ∧ c ≤ '7' then
        if left = 1 then
          (unquoteFrom .plain rest).map (List.cons (UInt8.ofNat (value * 8 + (c.toNat - 48))))
        else unquoteFrom (.octal (value * 8 + (c.toNat - 48)) (left - 1)) rest
      else none

/-- The path that git reads: a name in quotes, or one as it is. -/
def readPath (name : Text) : Option (List UInt8) :=
  if name.head? = some '"' then unquoteFrom .plain name.tail else some (bytes name)

/-- A byte is read back from its escape. -/
theorem unquoteFrom_gitQuoteByte (byte : UInt8) (rest : Text) :
    unquoteFrom .plain (gitQuoteByte byte ++ rest) =
      (unquoteFrom .plain rest).map (List.cons byte) := by
  rw [gitQuoteByte]
  split
  · next isQuote => rw [isQuote]; rfl
  next noQuote =>
  split
  · next isBackslash => rw [isBackslash]; rfl
  next noBackslash =>
  split
  · next isTab => rw [isTab]; rfl
  split
  · next isFeed => rw [isFeed]; rfl
  split
  · next isReturn => rw [isReturn]; rfl
  split
  · next printable =>
    have ascii : byte.toNat < 128 := by
      have bound := UInt8.le_iff_toNat_le.mp printable.2
      change byte.toNat ≤ 126 at bound
      omega
    have single := utf8EncodeChar_ofByte ascii
    have notQuote : ofByte byte ≠ '"' := by
      intro same
      rw [same] at single
      exact noQuote (List.singleton_inj.mp single).symm
    have notBackslash : ofByte byte ≠ '\\' := by
      intro same
      rw [same] at single
      exact noBackslash (List.singleton_inj.mp single).symm
    rw [List.singleton_append, unquoteFrom, if_neg notQuote, if_neg notBackslash, single]
    rfl
  · have digit : ∀ value < 8, ('0' ≤ octalDigit value ∧ octalDigit value ≤ '7') ∧
        (octalDigit value).toNat - 48 = value := by decide
    have first : ∀ value < 4, '0' ≤ octalDigit value ∧ octalDigit value ≤ '3' := by decide
    have bound := byte.toNat_lt
    have high : byte.toNat / 64 < 4 := by omega
    have middle : byte.toNat / 8 % 8 < 8 := by omega
    have low : byte.toNat % 8 < 8 := by omega
    rw [List.cons_append, List.cons_append, List.cons_append, List.cons_append,
      List.nil_append, unquoteFrom, if_neg (by decide), if_pos rfl, unquoteFrom,
      if_pos (first _ high), unquoteFrom, if_pos (digit _ middle).1, if_neg (by decide),
      unquoteFrom, if_pos (digit _ low).1, if_pos rfl, (digit _ (by omega)).2,
      (digit _ middle).2, (digit _ low).2]
    have whole : (byte.toNat / 64 * 8 + byte.toNat / 8 % 8) * 8 + byte.toNat % 8 =
        byte.toNat := by omega
    rw [whole, UInt8.ofNat_toNat]

theorem unquoteFrom_quoted (path : List UInt8) :
    unquoteFrom .plain (path.flatMap gitQuoteByte ++ "\"".toList) = some path := by
  induction path with
  | nil => rfl
  | cons byte path ih =>
    rw [List.flatMap_cons, List.append_assoc, unquoteFrom_gitQuoteByte, ih, Option.map_some]

/-- A path is read back as its bytes. -/
theorem readPath_gitQuotePath (path : Text) : readPath (gitQuotePath path) = some (bytes path) := by
  rw [gitQuotePath]
  split
  · next plain =>
    rw [readPath, if_neg]
    intro isQuote
    obtain ⟨rest, rfl⟩ := List.head?_eq_some_iff.mp isQuote
    rw [Bool.not_eq_true', List.any_eq_false] at plain
    exact plain 34 (List.mem_append_left _ (by decide)) (by decide)
  · rw [readPath, List.append_assoc, if_pos (by rfl)]
    exact unquoteFrom_quoted (bytes path)

variable {host : DiffHost} {fileMode : TrackedPath Path → Option Text}
  {leftPath rightPath : TrackedPath Path} {leftContent rightContent : Option TrackedContent}

/-- What `render_diff_named` prints ends in hunks that make the right text of the left one,
    whichever edit script they are of, and paths are read back as they are. -/
theorem renderDiffNamed_replays (leftDisplay rightDisplay : Text)
    (grouped : GroupedFrom (splitInclusive ((text leftContent).getD []))
      (splitInclusive ((text rightContent).getD [])) 0 0
      (host.groupedOps (splitInclusive ((text leftContent).getD []))
        (splitInclusive ((text rightContent).getD []))))
    (iterates : ∀ group ∈ host.groupedOps (splitInclusive ((text leftContent).getD []))
        (splitInclusive ((text rightContent).getD [])), ∀ op ∈ group,
      host.iterChanges (splitInclusive ((text leftContent).getD []))
          (splitInclusive ((text rightContent).getD [])) op =
        op.changes (splitInclusive ((text leftContent).getD []))
          (splitInclusive ((text rightContent).getD []))) :
    (text leftContent ≠ text rightContent →
      ∃ header hunks,
        renderDiffNamed host fileMode leftPath leftContent rightPath rightContent leftDisplay
          rightDisplay = some (header ++ hunks) ∧
        renderGroups (host.iterChanges (splitInclusive ((text leftContent).getD []))
          (splitInclusive ((text rightContent).getD [])))
          (host.groupedOps (splitInclusive ((text leftContent).getD []))
            (splitInclusive ((text rightContent).getD []))) = some hunks ∧
        patch hunks ((text leftContent).getD []) = some ((text rightContent).getD [])) ∧
    ∀ path, readPath (gitQuotePath path) = some (bytes path) := by
  refine ⟨fun differs => ?_, readPath_gitQuotePath⟩
  obtain ⟨hunks, isText, patches⟩ := renderGroups_patch grouped iterates
  rw [renderDiffNamed]
  dsimp only
  rw [if_neg fun both => differs both.1, if_neg differs, isText, Option.map_some]
  exact ⟨_, hunks, rfl, rfl, patches⟩

/-- The blobs and the script of a text that gets its last line feed. -/
def lastFeedHost : DiffHost where
  gitBlobOid content :=
    if content = "a\nb".toList then "0a207c060e61f3b88eaee0a8cd0696f46fb155eb".toList
    else "422c2b7ab3b3c668038da977e4e93a5fc623169c".toList
  groupedOps _ _ := [[.equal 0 0 1, .replace 1 1 1 1]]
  iterChanges := DiffOp.changes

theorem renderDiffNamed_replays_lastFeed :
    ∃ header hunks,
      renderDiffNamed lastFeedHost (fun _ => none) ⟨[], ()⟩ (some ⟨"a\nb".toList, none⟩) ⟨[], ()⟩
        (some ⟨"a\nb\n".toList, none⟩) "x".toList "x".toList = some (header ++ hunks) ∧
      renderGroups (DiffOp.changes (splitInclusive "a\nb".toList) (splitInclusive "a\nb\n".toList))
        [[.equal 0 0 1, .replace 1 1 1 1]] = some hunks ∧
      patch hunks "a\nb".toList = some "a\nb\n".toList := by
  have follows : Follows (splitInclusive "a\nb".toList) (splitInclusive "a\nb\n".toList) 0 0
      [.equal 0 0 1, .replace 1 1 1 1] 2 2 :=
    .equal 1 (by decide) (by decide) (by decide) (.replace 1 1 (by decide) (by decide) .nil)
  refine (renderDiffNamed_replays "x".toList "x".toList ?_ fun _ _ _ _ => rfl).1 (by decide)
  exact .group 0 (by decide) (by decide) rfl (List.cons_ne_nil _ _) follows (.rest (by decide))

end Codex.TurnDiff
