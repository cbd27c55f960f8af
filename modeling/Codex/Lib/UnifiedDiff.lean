import Codex.Lib.Text

/-!
# Unified diffs

Hunks as a reader of unified diffs takes them from their text: the header says how many lines of
either side the body has, and a line that says so takes the line feed of the line in front of it.
Hunks apply to a text at the lines that their headers name.
-/

namespace Codex.UnifiedDiff

open Text

inductive Tag where
  | equal
  | delete
  | insert
  deriving DecidableEq, Repr

def Tag.mark : Tag → Char
  | equal => ' '
  | delete => '-'
  | insert => '+'

/-- How many lines of the old side a line with this tag is. -/
def Tag.old : Tag → Nat
  | equal | delete => 1
  | insert => 0

/-- How many lines of the new side it is. -/
def Tag.new : Tag → Nat
  | equal | insert => 1
  | delete => 0

abbrev Change := Tag × Text

/-- A range of a header: its start, and the number of its lines. -/
structure HunkRange where
  start : Nat
  count : Nat
  deriving DecidableEq, Repr

/-- The number of lines in front of a range: its start is that of its first line, counted from one,
    or that of the line in front of it where it has none. -/
def HunkRange.before (range : HunkRange) : Nat :=
  if range.count = 0 then range.start else range.start - 1

structure Hunk where
  old : HunkRange
  new : HunkRange
  changes : List Change
  deriving DecidableEq, Repr

/-- The line behind one that has no line feed. -/
def noNewline : Text := "\\ No newline at end of file\n".toList

/-- Lines without the line feeds that they do not have. -/
def dropFeeds : List Text → List Text
  | [] => []
  | [line] => [line]
  | line :: next :: lines =>
      if next = noNewline then line.dropLast :: dropFeeds lines
      else line :: dropFeeds (next :: lines)

def readNumber (text : Text) : Option (Nat × Text) :=
  let digits := text.takeWhile Char.isDigit
  if digits = [] then none
  else some (Nat.ofDigitChars 10 digits 0, text.dropWhile Char.isDigit)

/-- A start, and a count that is one where it is not given. -/
def readRange (text : Text) : Option (HunkRange × Text) :=
  (readNumber text).bind fun start =>
    if start.2.head? = some ',' then
      (readNumber start.2.tail).map fun count => (⟨start.1, count.1⟩, count.2)
    else some (⟨start.1, 1⟩, start.2)

def readHeader (line : Text) : Option (HunkRange × HunkRange) :=
  (stripPrefix "@@ -".toList line).bind fun text =>
    (readRange text).bind fun old =>
      (stripPrefix " +".toList old.2).bind fun text =>
        (readRange text).bind fun new =>
          if new.2 = " @@\n".toList then some (old.1, new.1) else none

def readTag (mark : Char) : Option Tag :=
  [Tag.equal, Tag.delete, Tag.insert].find? fun tag => tag.mark = mark

/-- The lines of a body, until the numbers of lines of the header are reached. -/
def readBody (old new : Nat) : List Text → Option (List Change × List Text)
  | [] => if old = 0 ∧ new = 0 then some ([], []) else none
  | line :: lines =>
      if old = 0 ∧ new = 0 then some ([], line :: lines)
      else
        (line.head?.bind readTag).bind fun tag =>
          if old < tag.old ∨ new < tag.new then none
          else (readBody (old - tag.old) (new - tag.new) lines).map fun body =>
            ((tag, line.tail) :: body.1, body.2)

variable {lines : List Text} {hunks : List Hunk}

theorem length_readBody_le {old new : Nat} {body : List Change × List Text}
    (isBody : readBody old new lines = some body) : body.2.length ≤ lines.length := by
  induction lines generalizing old new body with
  | nil =>
    rw [readBody] at isBody
    obtain ⟨_, isSome⟩ := Option.ite_none_right_eq_some.mp isBody
    obtain rfl := Option.some.inj isSome
    exact Nat.le_refl _
  | cons line lines ih =>
    rw [readBody] at isBody
    split at isBody
    · obtain rfl := Option.some.inj isBody
      exact Nat.le_refl _
    · obtain ⟨tag, _, isBody⟩ := Option.bind_eq_some_iff.mp isBody
      obtain ⟨_, isBody⟩ := Option.ite_none_left_eq_some.mp isBody
      obtain ⟨rest, isRest, rfl⟩ := Option.map_eq_some_iff.mp isBody
      exact (ih isRest).trans (Nat.le_succ _)

def readHunks (lines : List Text) : Option (List Hunk) :=
  match lines with
  | [] => some []
  | header :: lines =>
      (readHeader header).bind fun ranges =>
        match _isBody : readBody ranges.1.count ranges.2.count lines with
        | none => none
        | some body =>
            (readHunks body.2).map fun hunks => ⟨ranges.1, ranges.2, body.1⟩ :: hunks
termination_by lines.length
decreasing_by exact Nat.lt_succ_of_le (length_readBody_le _isBody)

/-- What a body makes of the lines that it starts at, and the lines behind it. -/
def applyChanges : List Change → List Text → Option (List Text × List Text)
  | [], lines => some ([], lines)
  | change :: changes, lines =>
      if change.1 = .insert then
        (applyChanges changes lines).map fun rest => (change.2 :: rest.1, rest.2)
      else if lines.head? = some change.2 then
        (applyChanges changes lines.tail).map fun rest =>
          (if change.1 = .equal then change.2 :: rest.1 else rest.1, rest.2)
      else none

/-- The lines that hunks make of a text, behind a number of lines of either side. Every hunk stands
    where its header says. -/
def applyHunks (old new : Nat) : List Hunk → List Text → Option (List Text)
  | [], lines => some lines
  | hunk :: hunks, lines =>
      let skipped := hunk.old.before - old
      if old ≤ hunk.old.before ∧ skipped ≤ lines.length ∧ new + skipped = hunk.new.before then
        (applyChanges hunk.changes (lines.drop skipped)).bind fun applied =>
          (applyHunks (hunk.old.before + hunk.old.count) (hunk.new.before + hunk.new.count) hunks
            applied.2).map fun rest => lines.take skipped ++ applied.1 ++ rest
      else none

/-- What a text of hunks makes of a text. -/
def patch (hunks text : Text) : Option Text :=
  (readHunks (dropFeeds (splitInclusive hunks))).bind fun hunks =>
    (applyHunks 0 0 hunks (splitInclusive text)).map List.flatten

/-- A line of a text has no line feed but the last character. -/
def IsLine (line : Text) : Prop :=
  ∃ front, '\n' ∉ front ∧ (line = front ++ ['\n'] ∨ line = front)

theorem isLine_of_mem {text line : Text} (member : line ∈ splitInclusive text) : IsLine line := by
  induction text generalizing line with
  | nil => cases member
  | cons c text ih =>
    rw [splitInclusive] at member
    split at member
    · next isFeed =>
      rcases List.mem_cons.mp member with rfl | member
      · exact ⟨[], List.not_mem_nil, Or.inl (by rw [isFeed, List.nil_append])⟩
      · exact ih member
    next noFeed =>
    cases isSplit : splitInclusive text with
    | nil =>
      rw [isSplit] at member
      obtain rfl := List.mem_singleton.mp member
      exact ⟨[c], fun same => noFeed (List.mem_singleton.mp same).symm, Or.inr rfl⟩
    | cons segment segments =>
      rw [isSplit] at member ih
      rcases List.mem_cons.mp member with rfl | member
      · obtain ⟨front, single, isSegment⟩ := ih List.mem_cons_self
        refine ⟨c :: front, ?_, ?_⟩
        · rw [List.mem_cons, not_or]
          exact ⟨fun same => noFeed same.symm, single⟩
        · exact isSegment.imp (congrArg (List.cons c)) (congrArg (List.cons c))
      · exact ih (List.mem_cons_of_mem _ member)

/-- The lines in which a change is written. -/
def linesOf (change : Change) : List Text :=
  if change.2.getLast? = some '\n' then [change.1.mark :: change.2]
  else [change.1.mark :: (change.2 ++ ['\n']), noNewline]

theorem dropFeeds_cons {line : Text} (kept : lines.head? ≠ some noNewline) :
    dropFeeds (line :: lines) = line :: dropFeeds lines := by
  cases lines with
  | nil => rfl
  | cons next lines => rw [dropFeeds, if_neg fun same => kept (congrArg some same)]

theorem dropFeeds_linesOf (change : Change) (kept : lines.head? ≠ some noNewline) :
    dropFeeds (linesOf change ++ lines) = (change.1.mark :: change.2) :: dropFeeds lines := by
  rw [linesOf]
  split
  · exact dropFeeds_cons kept
  · change dropFeeds (_ :: noNewline :: lines) = _
    rw [dropFeeds, if_pos rfl, ← List.cons_append, List.dropLast_concat]

theorem head_linesOf (change : Change) (lines : List Text) :
    (linesOf change ++ lines).head? ≠ some noNewline := by
  have marked : ∀ text, change.1.mark :: text ≠ noNewline := by
    intro text same
    have first := (List.cons.inj same).1
    cases isTag : change.1 with
    | equal | delete | insert => rw [isTag] at first; exact absurd first (by decide)
  rw [linesOf]
  split
  · exact fun same => marked _ (Option.some.inj same)
  · exact fun same => marked _ (Option.some.inj same)

theorem dropFeeds_changes (changes : List Change) (kept : lines.head? ≠ some noNewline) :
    dropFeeds (changes.flatMap linesOf ++ lines) =
      (changes.map fun change => change.1.mark :: change.2) ++ dropFeeds lines := by
  induction changes with
  | nil => rfl
  | cons change changes ih =>
    rw [List.flatMap_cons, List.append_assoc, dropFeeds_linesOf change, ih]
    · rfl
    · cases changes with
      | nil => exact kept
      | cons next changes =>
        rw [List.flatMap_cons, List.append_assoc]
        exact head_linesOf next _

/-- The lines of the old side, and of the new side, in a body. -/
def oldCount (changes : List Change) : Nat := (changes.map fun change => change.1.old).sum

def newCount (changes : List Change) : Nat := (changes.map fun change => change.1.new).sum

theorem readTag_mark (tag : Tag) : readTag tag.mark = some tag := by
  cases tag <;> rfl

theorem readBody_changes (changes : List Change) (lines : List Text) :
    readBody (oldCount changes) (newCount changes)
      ((changes.map fun change => change.1.mark :: change.2) ++ lines) =
        some (changes, lines) := by
  induction changes with
  | nil =>
    cases lines with
    | nil => rfl
    | cons line lines => rfl
  | cons change changes ih =>
    obtain ⟨tag, text⟩ := change
    have someLine : ¬(tag.old + oldCount changes = 0 ∧ tag.new + newCount changes = 0) := by
      cases tag <;> simp [Tag.old, Tag.new]
    change readBody (tag.old + oldCount changes) (tag.new + newCount changes) _ = _
    have enough :
        ¬(tag.old + oldCount changes < tag.old ∨ tag.new + newCount changes < tag.new) := by
      omega
    rw [List.map_cons, List.cons_append, readBody, if_neg someLine, List.head?_cons,
      Option.bind_some, readTag_mark, Option.bind_some, if_neg enough, Nat.add_sub_cancel_left,
      Nat.add_sub_cancel_left, ih]
    rfl

theorem readNumber_digits (number : Nat) {rest : Text}
    (stops : rest.head?.all (fun c => !c.isDigit) = true) :
    readNumber (Nat.toDigits 10 number ++ rest) = some (number, rest) := by
  have digits : ∀ c ∈ Nat.toDigits 10 number, c.isDigit = true := fun c member =>
    Nat.isDigit_of_mem_toDigits (by decide) (by decide) member
  have noMore : rest.takeWhile Char.isDigit = [] ∧ rest.dropWhile Char.isDigit = rest := by
    cases rest with
    | nil => exact ⟨rfl, rfl⟩
    | cons c rest =>
      have noDigit : ¬c.isDigit = true := by simpa using stops
      exact ⟨List.takeWhile_cons_of_neg noDigit, List.dropWhile_cons_of_neg noDigit⟩
  rw [readNumber, List.takeWhile_append_of_pos digits, List.dropWhile_append_of_pos digits,
    noMore.1, noMore.2, List.append_nil, if_neg Nat.toDigits_ne_nil, Nat.ofDigitChars_ten_toDigits]

/-- A range as it is written. -/
def rangeText (range : HunkRange) : Text :=
  if range.count = 1 then Nat.toDigits 10 range.start
  else Nat.toDigits 10 range.start ++ ',' :: Nat.toDigits 10 range.count

theorem readRange_rangeText (range : HunkRange) {rest : Text}
    (space : rest.head? = some ' ') :
    readRange (rangeText range ++ rest) = some (range, rest) := by
  obtain ⟨tail, rfl⟩ := List.head?_eq_some_iff.mp space
  rw [readRange, rangeText]
  split
  · next one =>
    rw [readNumber_digits range.start (by simp)]
    rw [Option.bind_some, if_neg (by simp), ← one]
  · rw [List.append_assoc, readNumber_digits range.start (by simp), Option.bind_some,
      List.cons_append, if_pos (by simp), List.tail_cons, readNumber_digits range.count (by simp)]
    rfl

def headerText (old new : HunkRange) : Text :=
  "@@ -".toList ++ rangeText old ++ " +".toList ++ rangeText new ++ " @@\n".toList

theorem headerText_eq (old new : HunkRange) : headerText old new =
    "@@ -".toList ++ rangeText old ++ " +".toList ++ rangeText new ++ " @@\n".toList := rfl

theorem readHeader_headerText (old new : HunkRange) :
    readHeader (headerText old new) = some (old, new) := by
  rw [readHeader, headerText_eq, List.append_assoc, List.append_assoc, List.append_assoc,
    stripPrefix_append, Option.bind_some, readRange_rangeText old (by rfl), Option.bind_some,
    stripPrefix_append, Option.bind_some, readRange_rangeText new (by rfl), Option.bind_some,
    if_pos rfl]

/-- The lines in which a hunk is written. -/
def hunkLines (hunk : Hunk) : List Text :=
  headerText hunk.old hunk.new :: hunk.changes.flatMap linesOf

/-- The counts of the header are those of the body. -/
def Hunk.Counted (hunk : Hunk) : Prop :=
  hunk.old.count = oldCount hunk.changes ∧ hunk.new.count = newCount hunk.changes

theorem head_hunkLines (hunks : List Hunk) :
    (hunks.flatMap hunkLines).head? ≠ some noNewline := by
  cases hunks with
  | nil => exact fun same => by cases same
  | cons hunk hunks =>
    intro same
    have first : headerText hunk.old hunk.new = noNewline := Option.some.inj same
    rw [headerText_eq, List.append_assoc, List.append_assoc, List.append_assoc] at first
    exact absurd (List.cons.inj first).1 (by decide)

/-- Hunks are read back from the lines in which they are written. -/
theorem readHunks_hunkLines (counted : ∀ hunk ∈ hunks, hunk.Counted) :
    readHunks (dropFeeds (hunks.flatMap hunkLines)) = some hunks := by
  induction hunks with
  | nil =>
    change readHunks [] = some []
    rw [readHunks]
  | cons hunk hunks ih =>
    rw [List.forall_mem_cons] at counted
    have noMark : (hunk.changes.flatMap linesOf ++ hunks.flatMap hunkLines).head? ≠
        some noNewline := by
      cases hunk.changes with
      | nil => exact head_hunkLines hunks
      | cons change changes =>
        rw [List.flatMap_cons, List.append_assoc]
        exact head_linesOf change _
    rw [List.flatMap_cons, hunkLines, List.cons_append, dropFeeds_cons noMark,
      dropFeeds_changes hunk.changes (head_hunkLines hunks), readHunks, readHeader_headerText,
      Option.bind_some]
    have isBody := readBody_changes hunk.changes (dropFeeds (hunks.flatMap hunkLines))
    rw [← counted.1.1, ← counted.1.2] at isBody
    split
    · next none =>
      rw [isBody] at none
      cases none
    · next body isRead =>
      rw [isBody] at isRead
      obtain rfl := Option.some.inj isRead
      rw [ih counted.2]
      rfl

/-- A line with its line feed. -/
def IsFeedLine (line : Text) : Prop := ∃ front, '\n' ∉ front ∧ line = front ++ ['\n']

theorem splitInclusive_flatten (feeds : ∀ line ∈ lines, IsFeedLine line) :
    splitInclusive lines.flatten = lines := by
  induction lines with
  | nil => rfl
  | cons line lines ih =>
    rw [List.forall_mem_cons] at feeds
    obtain ⟨⟨front, single, rfl⟩, later⟩ := feeds
    rw [List.flatten_cons, List.append_assoc, List.singleton_append,
      splitInclusive_append_feed single, ih later]

theorem isFeedLine_linesOf {change : Change} (isLine : IsLine change.2) :
    ∀ line ∈ linesOf change, IsFeedLine line := by
  have marked : ∀ {front : Text}, '\n' ∉ front → '\n' ∉ change.1.mark :: front := by
    intro front single
    rw [List.mem_cons, not_or]
    refine ⟨fun same => ?_, single⟩
    cases isTag : change.1 with
    | equal | delete | insert => rw [isTag] at same; exact absurd same (by decide)
  obtain ⟨front, single, isFront⟩ := isLine
  rw [linesOf]
  split
  · next ends =>
    rw [List.forall_mem_singleton]
    refine ⟨change.1.mark :: front, marked single, ?_⟩
    rcases isFront with isFront | isFront
    · rw [isFront]
      rfl
    · rw [isFront] at ends
      exact absurd (List.mem_of_getLast? ends) single
  next noEnd =>
  rw [List.forall_mem_cons, List.forall_mem_singleton]
  rcases isFront with isFront | isFront
  · rw [isFront, List.getLast?_concat] at noEnd
    exact absurd rfl noEnd
  · rw [isFront]
    exact ⟨⟨change.1.mark :: front, marked single, rfl⟩,
      ⟨"\\ No newline at end of file".toList, by decide, by decide⟩⟩

theorem not_mem_rangeText (range : HunkRange) : '\n' ∉ rangeText range := by
  have digits : ∀ number, '\n' ∉ Nat.toDigits 10 number := fun number member =>
    absurd (Nat.isDigit_of_mem_toDigits (by decide) (by decide) member) (by decide)
  rw [rangeText]
  split
  · exact digits _
  · rw [List.mem_append, List.mem_cons, not_or, not_or]
    exact ⟨digits _, by decide, digits _⟩

theorem isFeedLine_headerText (old new : HunkRange) : IsFeedLine (headerText old new) := by
  refine ⟨"@@ -".toList ++ rangeText old ++ " +".toList ++ rangeText new ++ " @@".toList, ?_, ?_⟩
  · simp only [List.mem_append, not_or]
    exact ⟨⟨⟨⟨by decide, not_mem_rangeText old⟩, by decide⟩, not_mem_rangeText new⟩, by decide⟩
  · have last : " @@\n".toList = " @@".toList ++ ['\n'] := by decide
    rw [headerText_eq, last, ← List.append_assoc]

theorem isFeedLine_hunkLines {hunk : Hunk} (lines : ∀ change ∈ hunk.changes, IsLine change.2) :
    ∀ line ∈ hunkLines hunk, IsFeedLine line := by
  refine List.forall_mem_cons.mpr ⟨isFeedLine_headerText hunk.old hunk.new, fun line member => ?_⟩
  obtain ⟨change, isChange, member⟩ := List.mem_flatMap.mp member
  exact isFeedLine_linesOf (lines change isChange) line member

/-- The lines of the old side of a body. -/
def oldSide (changes : List Change) : List Text :=
  (changes.filter fun change => change.1 ≠ .insert).map Prod.snd

def newSide (changes : List Change) : List Text :=
  (changes.filter fun change => change.1 ≠ .delete).map Prod.snd

theorem length_oldSide (changes : List Change) : (oldSide changes).length = oldCount changes := by
  induction changes with
  | nil => rfl
  | cons change changes ih =>
    obtain ⟨tag, text⟩ := change
    rw [oldSide, List.length_map] at ih ⊢
    rw [oldCount, List.map_cons, List.sum_cons]
    change _ = tag.old + oldCount changes
    rw [← ih]
    cases tag <;> simp [Tag.old, Nat.add_comm]

theorem length_newSide (changes : List Change) : (newSide changes).length = newCount changes := by
  induction changes with
  | nil => rfl
  | cons change changes ih =>
    obtain ⟨tag, text⟩ := change
    rw [newSide, List.length_map] at ih ⊢
    rw [newCount, List.map_cons, List.sum_cons]
    change _ = tag.new + newCount changes
    rw [← ih]
    cases tag <;> simp [Tag.new, Nat.add_comm]

theorem oldSide_append (first second : List Change) :
    oldSide (first ++ second) = oldSide first ++ oldSide second := by
  rw [oldSide, oldSide, oldSide, List.filter_append, List.map_append]

theorem newSide_append (first second : List Change) :
    newSide (first ++ second) = newSide first ++ newSide second := by
  rw [newSide, newSide, newSide, List.filter_append, List.map_append]

theorem oldSide_tagged (tag : Tag) (lines : List Text) :
    oldSide (lines.map fun line => (tag, line)) = if tag = .insert then [] else lines := by
  cases tag <;> simp [oldSide, List.filter_map, Function.comp_def]

theorem newSide_tagged (tag : Tag) (lines : List Text) :
    newSide (lines.map fun line => (tag, line)) = if tag = .delete then [] else lines := by
  cases tag <;> simp [newSide, List.filter_map, Function.comp_def]

theorem applyChanges_oldSide (changes : List Change) (lines : List Text) :
    applyChanges changes (oldSide changes ++ lines) = some (newSide changes, lines) := by
  induction changes with
  | nil => rfl
  | cons change changes ih =>
    obtain ⟨tag, text⟩ := change
    cases tag with
    | insert =>
      change applyChanges (_ :: changes) (oldSide changes ++ lines) = _
      rw [applyChanges, if_pos rfl, ih]
      rfl
    | equal | delete =>
      change applyChanges (_ :: changes) (text :: (oldSide changes ++ lines)) = _
      rw [applyChanges, if_neg (by simp), List.head?_cons, if_pos rfl, List.tail_cons, ih]
      rfl

/-- Hunks turn lines into others, behind a number of lines of either side: what they leave out is
    the same on both sides, and each stands where its header says. -/
inductive Turns : Nat → Nat → List Hunk → List Text → List Text → Prop where
  | rest {old new : Nat} (lines : List Text) : Turns old new [] lines lines
  | hunk {old new : Nat} {hunk : Hunk} {hunks : List Hunk} {oldLines newLines : List Text}
      (skipped : List Text) (counted : hunk.Counted)
      (isOld : hunk.old.before = old + skipped.length)
      (isNew : hunk.new.before = new + skipped.length)
      (later : Turns (hunk.old.before + hunk.old.count) (hunk.new.before + hunk.new.count) hunks
        oldLines newLines) :
      Turns old new (hunk :: hunks) (skipped ++ (oldSide hunk.changes ++ oldLines))
        (skipped ++ (newSide hunk.changes ++ newLines))

theorem Turns.counted {old new : Nat} {oldLines newLines : List Text}
    (turns : Turns old new hunks oldLines newLines) : ∀ hunk ∈ hunks, hunk.Counted := by
  induction turns with
  | rest _ => exact List.forall_mem_nil _
  | hunk _ counted _ _ _ ih => exact List.forall_mem_cons.mpr ⟨counted, ih⟩

theorem Turns.applyHunks {old new : Nat} {oldLines newLines : List Text}
    (turns : Turns old new hunks oldLines newLines) :
    applyHunks old new hunks oldLines = some newLines := by
  induction turns with
  | rest _ => rfl
  | @hunk old new hunk hunks oldLines newLines skipped _ isOld isNew _ ih =>
    have isSkipped : hunk.old.before - old = skipped.length := by
      rw [isOld, Nat.add_sub_cancel_left]
    rw [UnifiedDiff.applyHunks, isSkipped,
      if_pos ⟨isOld ▸ Nat.le_add_right _ _, by simp, isNew.symm⟩, List.drop_left, List.take_left,
      applyChanges_oldSide, Option.bind_some, ih, Option.map_some, List.append_assoc]

/-- The text of hunks patches a text into the one that they turn it into. -/
theorem patch_of_turns {left right : Text}
    (turns : Turns 0 0 hunks (splitInclusive left) (splitInclusive right))
    (lines : ∀ hunk ∈ hunks, ∀ change ∈ hunk.changes, IsLine change.2) :
    patch (hunks.flatMap hunkLines).flatten left = some right := by
  have feeds : ∀ line ∈ hunks.flatMap hunkLines, IsFeedLine line := by
    intro line member
    obtain ⟨hunk, isHunk, member⟩ := List.mem_flatMap.mp member
    exact isFeedLine_hunkLines (lines hunk isHunk) line member
  rw [patch, splitInclusive_flatten feeds, readHunks_hunkLines turns.counted, Option.bind_some,
    turns.applyHunks, Option.map_some, flatten_splitInclusive]

end Codex.UnifiedDiff
