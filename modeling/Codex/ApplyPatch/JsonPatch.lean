import Codex.ApplyPatch.JsonNodes
import Codex.Lib.JsonPatch

/-!
# Patches of JSON texts

What `apply` of `json_edit.rs` does to a document: the operations are a patch of its value, and each
of them an edit that leaves the spelling of the other entries as it is.
-/

namespace Codex.ApplyPatch.JsonEdit

open Codex.Text Codex.JsonDocument

/-! ## Pointers -/

theorem not_mem_splitOn {c : Char} {text piece : Text} (member : piece ∈ text.splitOn c) :
    c ∉ piece := by
  induction text generalizing piece with
  | nil =>
    rw [List.splitOn_nil, List.mem_singleton] at member
    subst member
    exact List.not_mem_nil
  | cons d text ih =>
    rw [List.splitOn_cons_eq_if_modifyHead] at member
    split at member
    · rcases List.mem_cons.mp member with rfl | later
      · exact List.not_mem_nil
      · exact ih later
    next other =>
      have nonempty := List.splitOn_ne_nil c text
      cases pieces : text.splitOn c with
      | nil => exact absurd pieces nonempty
      | cons first rest =>
        rw [pieces] at member ih
        rcases List.mem_cons.mp member with rfl | later
        · rw [List.mem_cons, not_or]
          refine ⟨?_, ih List.mem_cons_self⟩
          rintro rfl
          exact other (beq_self_eq_true _)
        · exact ih (List.mem_cons_of_mem _ later)

/-- The token that is decoded has the spelling it is decoded from. -/
theorem unescape_spec {piece token : Text} (decoded : unescape piece = .ok token)
    (noSlash : '/' ∉ piece) : escapeToken token = piece := by
  induction piece using unescape.induct generalizing token with
  | case1 =>
    obtain rfl := Except.ok.inj decoded
    rfl
  | case2 =>
    rw [unescape.eq_def] at decoded
    cases decoded
  | case3 text ih =>
    rw [unescape.eq_def] at decoded
    obtain ⟨rest, inner, rfl⟩ := Except.map_eq_ok decoded
    have own := ih inner fun member =>
      noSlash (List.mem_cons_of_mem _ (List.mem_cons_of_mem _ member))
    rw [escapeToken, if_pos rfl, own]
  | case4 text notZero ih =>
    rw [unescape.eq_def] at decoded
    obtain ⟨rest, inner, rfl⟩ := Except.map_eq_ok decoded
    have own := ih inner fun member =>
      noSlash (List.mem_cons_of_mem _ (List.mem_cons_of_mem _ member))
    rw [escapeToken, if_neg (by decide), if_pos rfl, own]
  | case5 d text notZero notOne =>
    rw [unescape.eq_def] at decoded
    simp [notZero, notOne] at decoded
  | case6 c text notTilde ih =>
    rw [unescape.eq_def] at decoded
    simp only [if_neg notTilde] at decoded
    obtain ⟨rest, inner, rfl⟩ := Except.map_eq_ok decoded
    have own := ih inner fun member => noSlash (List.mem_cons_of_mem _ member)
    have notSlash : c ≠ '/' := by
      rintro rfl
      exact noSlash List.mem_cons_self
    rw [escapeToken, if_neg notTilde, if_neg notSlash, own]

theorem mapM_unescape {pieces tokens : List Text} (decoded : pieces.mapM unescape = .ok tokens)
    (noSlash : ∀ piece ∈ pieces, '/' ∉ piece) : tokens.map escapeToken = pieces := by
  induction pieces generalizing tokens with
  | nil =>
    obtain rfl := Except.ok.inj decoded
    rfl
  | cons piece rest ih =>
    rw [List.mapM_cons] at decoded
    cases first : unescape piece with
    | error error =>
      rw [first] at decoded
      cases decoded
    | ok token =>
      cases later : rest.mapM unescape with
      | error error =>
        rw [first, later] at decoded
        cases decoded
      | ok others =>
        rw [first, later] at decoded
        obtain rfl := Except.ok.inj decoded
        rw [List.map_cons, unescape_spec first (noSlash _ List.mem_cons_self),
          ih later fun piece member => noSlash _ (List.mem_cons_of_mem _ member)]

/-- A pointer is the spelling of its tokens. -/
theorem pointer_spec {path : Text} {tokens : List Text} (found : pointer path = .ok tokens) :
    path = printPointer tokens := by
  unfold pointer at found
  split at found
  next empty =>
    obtain rfl := Except.ok.inj found
    exact empty
  · split at found
    · cases found
    next rest stripped =>
      rw [stripPrefix_eq_some] at stripped
      have pieces := mapM_unescape found fun piece member => not_mem_splitOn member
      have joined : ∀ pieces : List Text, pieces ≠ [] →
          pieces.flatMap ('/' :: ·) = '/' :: ['/'].intercalate pieces := by
        intro pieces nonempty
        induction pieces with
        | nil => exact absurd rfl nonempty
        | cons piece others ih =>
          cases others with
          | nil => simp
          | cons second others =>
            rw [List.flatMap_cons, ih (List.cons_ne_nil _ _)]
            simp [List.intercalate]
      have printed : printPointer tokens = (tokens.map escapeToken).flatMap ('/' :: ·) := by
        rw [printPointer, List.flatMap_map]
      rw [printed, pieces, joined _ (List.splitOn_ne_nil _ _), List.intercalate_splitOn, stripped]
      rfl

/-- An index that is read is the one its token names. -/
theorem arrayIndex_spec {token : Text} {len index : Nat} {add : Bool}
    (found : arrayIndex token len add = .ok index) :
    resolveIndex token len add = some index ∧ index ≤ len ∧ (add = false → index < len) := by
  rw [arrayIndex] at found
  split at found
  next dash =>
    obtain rfl := Except.ok.inj found
    refine ⟨if_pos dash, le_rfl, fun notAdd => ?_⟩
    rw [notAdd] at dash
    cases dash.1
  · split at found
    · cases found
    next canonical =>
      rw [not_or, not_or, Bool.not_eq_false] at canonical
      simp only at found
      split at found
      · cases found
      split at found
      · cases found
      next inside =>
        obtain rfl := Except.ok.inj found
        rw [not_or, not_and] at inside
        have spelled := toDigits_ofDigitChars canonical.1 canonical.2.2
          fun long zero => canonical.2.1 ⟨long, zero⟩
        have below : add = false → Nat.ofDigitChars 10 token 0 < len := by
          intro notAdd
          have different := inside.2 notAdd
          omega
        refine ⟨resolveIndex_toDigits spelled ?_, by omega, below⟩
        cases add with
        | false => exact below rfl
        | true =>
          rw [if_pos rfl]
          omega

/-! ## Places in a container -/

/-- The text of a container before an entry, with what is before the container. -/
def headText (before : Text) (object : Bool) (front : List (Entry Doc)) : Text :=
  before ++ opening object :: printFront front

/-- The text of a container after an entry, with what is after the container. -/
def tailText (object : Bool) (back : List (Entry Doc)) (after : Text) : Text :=
  printBack back ++ closing object :: after

section Places

variable {serde : SerdeJson} {decode : Text → Text} {object : Bool} {before after source : Text}
variable {front back : List (Entry Doc)} {entry previous : Entry Doc}

theorem length_headText : (headText before object front).length =
    before.length + 1 + (printFront front).length := by
  rw [headText, List.length_append, List.length_cons]
  omega

theorem headText_snoc : headText before object (front ++ [previous]) =
    headText before object front ++ printEntry previous ++ [','] := by
  simp [headText, printFront]

/-- A container around one of its entries. -/
theorem container_around :
    before ++ (Doc.container object [] (front ++ entry :: back)).print ++ after =
      headText before object front ++ printEntry entry ++ tailText object back after := by
  rw [Doc.print, printEntries_split, headText, tailText]
  simp

/-- The child of an entry is at the place of the entry. -/
theorem entryAt_headText :
    entryAt (childrenOf decode (before.length + 1) (front ++ entry :: back)) front.length =
      childOf decode (headText before object front).length entry := by
  rw [entryAt_childrenOf, length_headText]

@[simp] theorem childOf_start (offset : Nat) :
    (childOf decode offset entry).start = offset + entry.lead.length := by
  rw [childOf_eq]

@[simp] theorem childOf_value_start (offset : Nat) : (childOf decode offset entry).value.start =
    offset + entry.lead.length + (printKey entry.key).length := by
  rw [childOf_eq]
  exact nodeOf_start _ _

@[simp] theorem childOf_value_stop (offset : Nat) : (childOf decode offset entry).value.stop =
    offset + entry.lead.length + (printKey entry.key).length + entry.value.print.length := by
  rw [childOf_eq]
  exact nodeOf_stop _ _

theorem blank_no_comma {text : Text} (blank : Blank text) : ',' ∉ text := fun member => by
  exact absurd (blank _ member) (by decide)

/-- The separator before an entry is the comma after the one before it. -/
theorem separatorEnd_spec (trail : Blank previous.trail)
    (whole : source = headText before object (front ++ [previous]) ++ printEntry entry ++
      tailText object back after) :
    separatorEnd source
        (entryAt (childrenOf decode (before.length + 1) (front ++ previous :: entry :: back))
          front.length).value.stop
        (entryAt (childrenOf decode (before.length + 1) (front ++ previous :: entry :: back))
          (front.length + 1)).start =
      .ok (headText before object (front ++ [previous])).length := by
  have shifted : front ++ previous :: entry :: back = (front ++ [previous]) ++ entry :: back := by
    simp
  have second : entryAt (childrenOf decode (before.length + 1) (front ++ previous :: entry :: back))
      (front.length + 1) =
        childOf decode (headText before object (front ++ [previous])).length entry := by
    rw [shifted, ← @entryAt_headText _ _ _ _ back _, List.length_append, List.length_singleton]
  have parts : source = (headText before object front ++ previous.lead ++ printKey previous.key ++
      previous.value.print) ++ (previous.trail ++ ',' :: entry.lead) ++
        (printKey entry.key ++ entry.value.print ++ entry.trail ++ tailText object back after) := by
    rw [whole, headText_snoc, printEntry_eq, printEntry_eq]
    simp only [List.append_assoc, List.nil_append, List.cons_append]
  have found := @findIn_append (headText before object front ++ previous.lead ++
    printKey previous.key ++ previous.value.print) _ entry.lead (printKey entry.key ++
      entry.value.print ++ entry.trail ++ tailText object back after) ',' (blank_no_comma trail)
  rw [← parts] at found
  rw [second, @entryAt_headText _ object _ _ _ _, childOf_value_stop, childOf_start, separatorEnd]
  have left : (headText before object front ++ previous.lead ++ printKey previous.key ++
      previous.value.print).length = (headText before object front).length +
        previous.lead.length + (printKey previous.key).length + previous.value.print.length := by
    simp only [List.length_append]
  have right : (headText before object (front ++ [previous])).length + entry.lead.length =
      (headText before object front ++ previous.lead ++ printKey previous.key ++
        previous.value.print).length + (previous.trail ++ ',' :: entry.lead).length := by
    rw [headText_snoc, printEntry_eq]
    simp only [List.length_append, List.length_cons, List.length_nil]
    omega
  rw [right, ← left, found]
  simp only [Except.ok.injEq]
  rw [headText_snoc, printEntry_eq]
  simp only [List.length_append, List.length_singleton]
  omega

/-- Where the text of an entry starts, after the separator before it. -/
theorem separatorStart_spec (laid : ∀ entry ∈ front, Blank entry.trail)
    (whole : source = headText before object front ++ printEntry entry ++
      tailText object back after) :
    (if front.length = 0 then .ok (before.length + 1)
      else separatorEnd source
        (entryAt (childrenOf decode (before.length + 1) (front ++ entry :: back))
          (front.length - 1)).value.stop
        (entryAt (childrenOf decode (before.length + 1) (front ++ entry :: back))
          front.length).start) = Except.ok (headText before object front).length := by
  rcases List.eq_nil_or_concat front with rfl | ⟨others, previous, rfl⟩
  · rw [length_headText]
    rfl
  rw [List.concat_eq_append] at laid whole ⊢
  have length : (others ++ [previous]).length = others.length + 1 := by simp
  have shifted : (others ++ [previous]) ++ entry :: back =
      others ++ previous :: entry :: back := by simp
  rw [if_neg (by rw [length]; omega), length, Nat.add_sub_cancel, shifted]
  exact separatorEnd_spec (laid previous (by simp)) whole

end Places

/-! ## Edits of a container -/

section Containers

variable {serde : SerdeJson} {decode : Text → Text} {object : Bool} {before after source : Text}
variable {inner token : Text} {front back : List (Entry Doc)} {entry : Entry Doc}

variable {entries : List (Entry Doc)} {edit : (Nat × Nat) × Text}

theorem filled_inner (formed : (Doc.container object inner entries).WellFormed)
    (nonempty : entries ≠ []) :
    inner = [] := by
  cases formed with
  | container _ _ _ blank filled laid values => exact filled nonempty

/-- Another value in the place of one. -/
theorem replaceRange_value (new : Doc) (whole : source =
      before ++ (Doc.container object [] (front ++ entry :: back)).print ++ after) :
    replaceRange source
        ((entryAt (childrenOf decode (before.length + 1) (front ++ entry :: back))
            front.length).value.start,
          (entryAt (childrenOf decode (before.length + 1) (front ++ entry :: back))
            front.length).value.stop) new.print =
      before ++ (Doc.container object [] (front ++ { entry with value := new } :: back)).print ++
        after := by
  have parts : source = (headText before object front ++ entry.lead ++ printKey entry.key) ++
      entry.value.print ++ (entry.trail ++ tailText object back after) := by
    rw [whole, container_around, printEntry_eq]
    simp only [List.append_assoc]
  have replaced := replaceRange_append (headText before object front ++ entry.lead ++
    printKey entry.key) entry.value.print (entry.trail ++ tailText object back after) new.print
  rw [← parts, List.length_append, List.length_append] at replaced
  rw [@entryAt_headText _ object _ _ _ _, childOf_value_start, childOf_value_stop, replaced,
    container_around, printEntry_eq]
  simp only [List.append_assoc]

/-- An entry goes with the comma after it. -/
theorem replaceRange_entry {next : Entry Doc} (whole : source =
      before ++ (Doc.container object [] (front ++ entry :: next :: back)).print ++ after) :
    replaceRange source ((headText before object front).length,
        (headText before object (front ++ [entry])).length) [] =
      before ++ (Doc.container object [] (front ++ next :: back)).print ++ after := by
  have shifted : front ++ entry :: next :: back = (front ++ [entry]) ++ next :: back := by simp
  have parts : source = headText before object front ++ (printEntry entry ++ [',']) ++
      (printEntry next ++ tailText object back after) := by
    rw [whole, shifted, container_around, headText_snoc]
    simp only [List.append_assoc]
  have replaced := replaceRange_append (headText before object front) (printEntry entry ++ [','])
    (printEntry next ++ tailText object back after) []
  rw [← parts, ← List.length_append, ← List.append_assoc, ← headText_snoc] at replaced
  rw [replaced, container_around, List.append_nil, List.append_assoc]

/-- The last entry goes with the comma before it. -/
theorem replaceRange_last {previous : Entry Doc} (whole : source =
      before ++ (Doc.container object [] (front ++ [previous, entry])).print ++ after) :
    replaceRange source ((headText before object (front ++ [previous])).length - 1,
        (headText before object (front ++ [previous])).length + entry.lead.length +
          (printKey entry.key).length + entry.value.print.length) [] =
      before ++ (Doc.container object []
        (front ++ [{ previous with trail := previous.trail ++ entry.trail }])).print ++ after := by
  have shifted : front ++ [previous, entry] = (front ++ [previous]) ++ entry :: [] := by simp
  have parts : source = (headText before object front ++ printEntry previous) ++
      (',' :: (entry.lead ++ printKey entry.key ++ entry.value.print)) ++
        (entry.trail ++ tailText object [] after) := by
    rw [whole, shifted, container_around, headText_snoc, printEntry_eq entry]
    simp only [List.append_assoc, List.nil_append, List.cons_append]
  have replaced := replaceRange_append (headText before object front ++ printEntry previous)
    (',' :: (entry.lead ++ printKey entry.key ++ entry.value.print))
      (entry.trail ++ tailText object [] after) []
  rw [← parts] at replaced
  have first : (headText before object (front ++ [previous])).length - 1 =
      (headText before object front ++ printEntry previous).length := by
    rw [headText_snoc, List.length_append, List.length_singleton, Nat.add_sub_cancel]
  have second : (headText before object (front ++ [previous])).length + entry.lead.length +
      (printKey entry.key).length + entry.value.print.length =
        (headText before object front ++ printEntry previous).length +
          (',' :: (entry.lead ++ printKey entry.key ++ entry.value.print)).length := by
    rw [headText_snoc]
    simp only [List.length_append, List.length_cons, List.length_nil]
    omega
  rw [first, second, replaced, container_around, printEntry_eq, printEntry_eq]
  simp only [List.append_assoc, List.nil_append]

/-- The only entry goes and its whitespace stays. -/
theorem replaceRange_only
    (whole : source = before ++ (Doc.container object [] [entry]).print ++ after) :
    replaceRange source ((headText before object []).length + entry.lead.length,
        (headText before object []).length + entry.lead.length + (printKey entry.key).length +
          entry.value.print.length) [] =
      before ++ (Doc.container object (entry.lead ++ entry.trail) []).print ++ after := by
  have parts : source = (headText before object [] ++ entry.lead) ++
      (printKey entry.key ++ entry.value.print) ++ (entry.trail ++ tailText object [] after) := by
    rw [whole, ← List.nil_append [entry], container_around, printEntry_eq]
    simp only [List.append_assoc]
  have replaced := replaceRange_append (headText before object [] ++ entry.lead)
    (printKey entry.key ++ entry.value.print) (entry.trail ++ tailText object [] after) []
  rw [← parts, List.length_append, List.length_append, ← Nat.add_assoc] at replaced
  rw [replaced, Doc.print]
  simp [headText, tailText, printFront, printBack, printEntries]

theorem removal_spec
    (formed : (Doc.container object inner (front ++ entry :: back)).WellFormed)
    (whole : source = before ++ (Doc.container object inner (front ++ entry :: back)).print ++ after)
    (found : slot decode object (front ++ entry :: back) token false = some front.length)
    {range : Nat × Nat}
    (removed : removal source
      (nodeOf decode before.length (.container object inner (front ++ entry :: back)))
        (childrenOf decode (before.length + 1) (front ++ entry :: back)) front.length = .ok range) :
    ∃ result, ChildEdited decode token .remove
        (.container object inner (front ++ entry :: back)) result ∧
      replaceRange source range [] = before ++ result.print ++ after := by
  obtain rfl := filled_inner formed (by simp)
  have trails : ∀ other ∈ front ++ entry :: back, Blank other.trail :=
    fun other member => (formed.entry member).1.trail
  have start := @separatorStart_spec decode _ _ _ _ _ _ _ (fun other member =>
    trails other (List.mem_append_left _ member)) (whole.trans container_around)
  rw [removal, length_childrenOf, nodeOf_start] at removed
  cases back with
  | cons next rest =>
    have shifted : front ++ entry :: next :: rest = (front ++ [entry]) ++ next :: rest := by simp
    have stop := @separatorEnd_spec decode _ _ _ _ front rest _ _
      (trails entry (by simp)) (whole.trans (by rw [shifted, container_around]))
    rw [if_pos (by simp), start] at removed
    simp only [stop] at removed
    obtain rfl := Except.ok.inj removed
    exact ⟨_, .removed object front rest entry next found, replaceRange_entry whole⟩
  | nil =>
    rw [if_neg (by simp)] at removed
    rcases List.eq_nil_or_concat front with rfl | ⟨others, previous, rfl⟩
    · rw [if_neg (by simp), @entryAt_headText _ object _ _ _ _, childOf_start,
        childOf_value_stop] at removed
      obtain rfl := Except.ok.inj removed
      exact ⟨_, .removedOnly object entry found, replaceRange_only whole⟩
    rw [List.concat_eq_append] at *
    have length : (others ++ [previous]).length = others.length + 1 := by simp
    rw [if_neg (by rw [length]; omega)] at start
    rw [if_pos (by rw [length]; omega), start, @entryAt_headText _ object _ _ _ _,
      childOf_value_stop] at removed
    obtain rfl := Except.ok.inj removed
    have shifted : others ++ [previous] ++ [entry] = others ++ [previous, entry] := by simp
    rw [length, shifted] at found
    rw [shifted] at whole ⊢
    exact ⟨_, .removedLast object others previous entry found, replaceRange_last whole⟩

theorem fromLastColon_append {first last : Text} (absent : ':' ∉ last) :
    fromLastColon (first ++ ':' :: last) = ':' :: last := by
  have member : ':' ∈ first ++ ':' :: last := List.mem_append_right _ List.mem_cons_self
  have others : ∀ c ∈ last.reverse, (c != ':') = true := by
    intro c member
    rw [bne_iff_ne]
    rintro rfl
    exact absent (List.mem_reverse.mp member)
  rw [fromLastColon, if_pos member, List.rtakeWhile, List.reverse_append, List.reverse_cons,
    List.append_assoc, List.takeWhile_append_of_pos others, List.singleton_append,
    List.takeWhile_cons_of_neg (by decide), List.append_nil, List.reverse_reverse]

/-- The text of a new child is its key, with the colon of the first member, and its value. -/
theorem memberText_spec (correct : serde.Correct decode)
    (formed : (Doc.container object inner entries).WellFormed)
    (whole : source = before ++ (Doc.container object inner entries).print ++ after) (token : Text)
    (new : Doc) : ∃ key, NewKey decode object token key ∧
      memberText serde source (nodeOf decode before.length (.container object inner entries))
        (childrenOf decode (before.length + 1) entries) token new.print =
          printKey key ++ new.print := by
  obtain ⟨isString_, decoded⟩ := correct.encodeString token
  have spelled : ∀ {colon : Text}, IsColon colon →
      NewKey decode true token (some (serde.encodeString token, colon)) := by
    intro colon isColon
    refine ⟨rfl, ?_, ?_⟩
    · intro pair written
      obtain rfl := Option.some_inj.mp written
      exact ⟨isString_, isColon⟩
    · intro pair written
      obtain rfl := Option.some_inj.mp written
      exact decoded
  have none_ : NewKey decode false token none := by
    refine ⟨rfl, ?_, ?_⟩
    · intro pair written
      cases written
    · intro pair written
      cases written
  cases object with
  | false => exact ⟨none, none_, rfl⟩
  | true =>
    cases entries with
    | nil =>
      refine ⟨some (serde.encodeString token, [':', ' ']), spelled ⟨[], [' '], Blank.nil, ?_, rfl⟩,
        rfl⟩
      intro c member
      obtain rfl := List.mem_singleton.mp member
      rfl
    | cons first rest =>
      obtain rfl := filled_inner formed (List.cons_ne_nil _ _)
      have laid := (@Doc.WellFormed.entry _ _ _ formed first List.mem_cons_self).1
      obtain ⟨⟨spelling, colon⟩, key⟩ := Option.isSome_iff_exists.mp laid.keyed
      obtain ⟨_, blankBefore, blankAfter, beforeBlank, afterBlank, rfl⟩ := laid.key _ key
      have absent : ':' ∉ blankAfter := fun member => absurd (afterBlank _ member) (by decide)
      have parts : source = (headText before true [] ++ first.lead) ++ printKey first.key ++
          (first.value.print ++ first.trail ++ tailText true rest after) := by
        rw [whole, ← List.nil_append (first :: rest), container_around, printEntry_eq]
        simp only [List.append_assoc]
      have cut : slice source (before.length + 1 + first.lead.length)
          (before.length + 1 + first.lead.length + (printKey first.key).length) =
            spelling ++ blankBefore ++ ':' :: blankAfter := by
        have own := slice_append (headText before true [] ++ first.lead) (printKey first.key)
          (first.value.print ++ first.trail ++ tailText true rest after)
        have head : (headText before true []).length = before.length + 1 := length_headText
        rw [← parts, List.length_append, head] at own
        rw [key] at own ⊢
        rw [own, printKey, List.append_assoc]
      refine ⟨some (serde.encodeString token, ':' :: blankAfter),
        spelled ⟨[], blankAfter, Blank.nil, afterBlank, rfl⟩, ?_⟩
      rw [memberText, childrenOf, List.head?_cons]
      simp only [childOf_start, childOf_value_start]
      rw [cut, fromLastColon_append absent]
      rfl

/-- A new element before another. -/
theorem replaceRange_insert (new : Doc) (whole : source =
      before ++ (Doc.container object [] (front ++ entry :: back)).print ++ after) :
    replaceRange source ((headText before object front).length + entry.lead.length,
        (headText before object front).length + entry.lead.length)
        (new.print ++ ',' :: entry.lead) =
      before ++ (Doc.container object []
        (front ++ ⟨entry.lead, none, new, []⟩ :: entry :: back)).print ++ after := by
  have parts : source = (headText before object front ++ entry.lead) ++ [] ++
      (printKey entry.key ++ entry.value.print ++ entry.trail ++ tailText object back after) := by
    rw [whole, container_around, printEntry_eq]
    simp only [List.append_assoc, List.nil_append]
  have replaced := replaceRange_append (headText before object front ++ entry.lead) []
    (printKey entry.key ++ entry.value.print ++ entry.trail ++ tailText object back after)
      (new.print ++ ',' :: entry.lead)
  rw [← parts, List.length_append] at replaced
  rw [List.length_nil, Nat.add_zero] at replaced
  rw [replaced, container_around, tailText, tailText, printBack_cons, printEntry_eq, printEntry_eq]
  simp only [printKey, List.append_assoc, List.append_nil, List.cons_append]

/-- A new entry after the last. -/
theorem replaceRange_push (key : Option (Text × Text)) (new : Doc) (whole : source =
      before ++ (Doc.container object [] (front ++ [entry])).print ++ after) :
    replaceRange source
        ((headText before object front).length + entry.lead.length + (printKey entry.key).length +
            entry.value.print.length,
          (headText before object front).length + entry.lead.length +
            (printKey entry.key).length + entry.value.print.length)
        (',' :: (entry.lead ++ (printKey key ++ new.print))) =
      before ++ (Doc.container object []
        (front ++ [{ entry with trail := [] }, ⟨entry.lead, key, new, entry.trail⟩])).print ++
          after := by
  have parts : source = (headText before object front ++ entry.lead ++ printKey entry.key ++
      entry.value.print) ++ [] ++ (entry.trail ++ tailText object [] after) := by
    rw [whole, container_around, printEntry_eq]
    simp only [List.append_assoc, List.nil_append]
  have replaced := replaceRange_append (headText before object front ++ entry.lead ++
    printKey entry.key ++ entry.value.print) [] (entry.trail ++ tailText object [] after)
      (',' :: (entry.lead ++ (printKey key ++ new.print)))
  rw [← parts, List.length_append, List.length_append, List.length_append, List.length_nil,
    Nat.add_zero] at replaced
  rw [replaced, container_around, tailText, tailText, printBack_cons, printEntry_eq, printEntry_eq]
  simp only [printBack, List.flatMap_nil, List.append_assoc, List.nil_append, List.cons_append]

/-- The first entry of an empty container. -/
theorem replaceRange_first (key : Option (Text × Text)) (new : Doc) (indent : Text)
    (whole : source = before ++ (Doc.container object inner []).print ++ after) :
    replaceRange source (before.length + 1, before.length + 1)
        (inner ++ indent ++ (printKey key ++ new.print)) =
      before ++ (Doc.container object [] [⟨inner ++ indent, key, new, inner⟩]).print ++ after := by
  have parts : source = (before ++ [opening object]) ++ [] ++ (inner ++ closing object :: after) := by
    rw [whole, Doc.print, printEntries]
    simp
  have replaced := replaceRange_append (before ++ [opening object]) []
    (inner ++ closing object :: after) (inner ++ indent ++ (printKey key ++ new.print))
  rw [← parts, List.length_append, List.length_nil, Nat.add_zero, List.length_singleton] at replaced
  rw [replaced, Doc.print, printEntries, printEntry_eq]
  simp

/-- The first entry of an empty container that is written on one line. -/
theorem replaceRange_first_inline (key : Option (Text × Text)) (new : Doc)
    (whole : source = before ++ (Doc.container object inner []).print ++ after) :
    replaceRange source (before.length + 1 + inner.length, before.length + 1 + inner.length)
        (printKey key ++ new.print ++ inner) =
      before ++ (Doc.container object [] [⟨inner ++ [], key, new, inner⟩]).print ++ after := by
  have parts : source = (before ++ [opening object] ++ inner) ++ [] ++ (closing object :: after) := by
    rw [whole, Doc.print, printEntries]
    simp
  have replaced := replaceRange_append (before ++ [opening object] ++ inner) []
    (closing object :: after) (printKey key ++ new.print ++ inner)
  rw [← parts, List.length_append, List.length_append, List.length_nil, Nat.add_zero,
    List.length_singleton] at replaced
  rw [replaced, Doc.print, printEntries, printEntry_eq]
  simp

theorem indentUnit_blank (source : Text) : Blank (indentUnit source) := by
  rw [indentUnit]
  cases found : ((source.splitOn '\n').map
      (·.takeWhile fun c => c == ' ' || c == '\t')).find? (!·.isEmpty) with
  | none =>
    intro c member
    rw [Option.getD_none, List.mem_cons, List.mem_singleton, or_self] at member
    subst member
    rfl
  | some indent =>
    obtain ⟨line, _, rfl⟩ := List.mem_map.mp (List.mem_of_find?_eq_some found)
    intro c member
    have space := List.mem_takeWhile_imp member
    rw [isBlank, Bool.or_eq_true, Bool.or_eq_true]
    exact .inl (.inl space)

/-- A new element is put before the one at its index. -/
theorem insertion_before (new : Doc)
    (formed : (Doc.container false inner (front ++ entry :: back)).WellFormed)
    (whole : source = before ++ (Doc.container false inner (front ++ entry :: back)).print ++ after)
    (found : slot decode false (front ++ entry :: back) token true = some front.length)
    (inserted : insertion source
      (nodeOf decode before.length (.container false inner (front ++ entry :: back)))
        (childrenOf decode (before.length + 1) (front ++ entry :: back)) front.length new.print =
          .ok edit) :
    ∃ result, ChildEdited decode token (.add new)
        (.container false inner (front ++ entry :: back)) result ∧
      replaceRange source edit.1 edit.2 = before ++ result.print ++ after := by
  obtain rfl := filled_inner formed (by simp)
  have start := @separatorStart_spec decode _ _ _ _ _ _ _ (fun other member =>
    (formed.entry (List.mem_append_left _ member)).1.trail) (whole.trans container_around)
  have parts : source = headText before false front ++ entry.lead ++ (printKey entry.key ++
      entry.value.print ++ entry.trail ++ tailText false back after) := by
    rw [whole, container_around, printEntry_eq]
    simp only [List.append_assoc]
  have whitespace := slice_append (headText before false front) entry.lead (printKey entry.key ++
    entry.value.print ++ entry.trail ++ tailText false back after)
  rw [← parts] at whitespace
  have nonempty : (childrenOf decode (before.length + 1) (front ++ entry :: back)).isEmpty =
      false := by
    rw [List.isEmpty_eq_false_iff, ← List.length_pos_iff, length_childrenOf]
    simp
  have sibling : min front.length ((front ++ entry :: back).length - 1) = front.length := by
    rw [List.length_append, List.length_cons]
    omega
  rw [insertion, nonempty, length_childrenOf, sibling, nodeOf_start] at inserted
  simp only [Bool.false_eq_true, if_false, start] at inserted
  rw [if_pos (by simp), @entryAt_headText _ false _ _ _ _, childOf_start, whitespace] at inserted
  obtain rfl := Except.ok.inj inserted
  exact ⟨_, .inserted front back entry new found, replaceRange_insert new whole⟩

/-- A new entry is put after the others. -/
theorem insertion_end (correct : serde.Correct decode) (new : Doc)
    (formed : (Doc.container object inner entries).WellFormed)
    (whole : source = before ++ (Doc.container object inner entries).print ++ after)
    (found : slot decode object entries token true = some entries.length)
    (inserted : insertion source (nodeOf decode before.length (.container object inner entries))
        (childrenOf decode (before.length + 1) entries) entries.length
          (memberText serde source (nodeOf decode before.length (.container object inner entries))
            (childrenOf decode (before.length + 1) entries) token new.print) = .ok edit) :
    ∃ result, ChildEdited decode token (.add new) (.container object inner entries) result ∧
      replaceRange source edit.1 edit.2 = before ++ result.print ++ after := by
  obtain ⟨key, spelled, member⟩ := memberText_spec correct formed whole token new
  rw [member] at inserted
  rcases List.eq_nil_or_concat entries with rfl | ⟨front, last, rfl⟩
  · have cut : slice source (before.length + 1) (before.length + 1 + inner.length) = inner := by
      have own := slice_append (before ++ [opening object]) inner (closing object :: after)
      rw [List.length_append, List.length_singleton] at own
      rw [whole, Doc.print, printEntries]
      simpa using own
    have stop : (nodeOf decode before.length (.container object inner [])).stop - 1 =
        before.length + 1 + inner.length := by
      rw [nodeOf_stop, Doc.print, printEntries]
      simp
      omega
    rw [insertion, childrenOf, stop, nodeOf_start] at inserted
    simp only [List.isEmpty_nil, if_true, cut] at inserted
    split at inserted
    · obtain rfl := Except.ok.inj inserted
      exact ⟨_, .first object inner (indentUnit source) key new spelled (indentUnit_blank source)
        found, replaceRange_first key new _ whole⟩
    · obtain rfl := Except.ok.inj inserted
      exact ⟨_, .first object inner [] key new spelled Blank.nil found,
        replaceRange_first_inline key new whole⟩
  · rw [List.concat_eq_append] at *
    obtain rfl := filled_inner formed (by simp)
    have start := @separatorStart_spec decode _ _ _ _ _ _ _ (fun other member =>
      (formed.entry (List.mem_append_left _ member)).1.trail) (whole.trans container_around)
    have parts : source = headText before object front ++ last.lead ++ (printKey last.key ++
        last.value.print ++ last.trail ++ tailText object [] after) := by
      rw [whole, container_around, printEntry_eq]
      simp only [List.append_assoc]
    have whitespace := slice_append (headText before object front) last.lead (printKey last.key ++
      last.value.print ++ last.trail ++ tailText object [] after)
    rw [← parts] at whitespace
    have nonempty : (childrenOf decode (before.length + 1) (front ++ [last])).isEmpty = false := by
      rw [List.isEmpty_eq_false_iff, ← List.length_pos_iff, length_childrenOf]
      simp
    have length : (front ++ [last]).length = front.length + 1 := by simp
    rw [insertion, nonempty, length_childrenOf, length, Nat.add_sub_cancel,
      Nat.min_eq_right (Nat.le_succ _), nodeOf_start] at inserted
    simp only [Bool.false_eq_true, if_false, start] at inserted
    rw [if_neg (Nat.lt_irrefl _), @entryAt_headText _ object _ _ _ _, childOf_start,
      childOf_value_stop, whitespace] at inserted
    obtain rfl := Except.ok.inj inserted
    rw [length] at found
    exact ⟨_, .appended object front last key new spelled found, replaceRange_push key new whole⟩

/-! Targets -/

theorem findIdx?_childrenOf (laid : ∀ entry ∈ entries, entry.Laid true)
    (offset : Nat) : (childrenOf decode offset entries).findIdx? (fun entry => entry.key == some token) =
      entries.findIdx? fun entry => entry.name decode == token := by
  induction entries generalizing offset with
  | nil => rfl
  | cons entry rest ih =>
    obtain ⟨key, written⟩ := Option.isSome_iff_exists.mp (laid entry List.mem_cons_self).keyed
    have own : (childOf decode offset entry).key = some (entry.name decode) := by
      rw [childOf_eq, Entry.name, written]
      rfl
    rw [childrenOf, List.findIdx?_cons, List.findIdx?_cons,
      ih fun entry member => laid entry (List.mem_cons_of_mem _ member), own]
    rfl

/-- The place of a token among the children of a container. -/
theorem found_spec {isAdd : Bool} {index : Option Nat}
    (formed : (Doc.container object inner entries).WellFormed)
    (found : (if object then .ok ((childrenOf decode (before.length + 1) entries).findIdx?
        fun entry => entry.key == some token)
      else (arrayIndex token (childrenOf decode (before.length + 1) entries).length isAdd).map some) =
        Except.ok index) :
    (∃ place < entries.length, index = some place ∧
        slot decode object entries token isAdd = some place) ∨
      ((∀ place, index = some place → place = entries.length) ∧ (isAdd = true →
        slot decode object entries token true = some entries.length)) := by
  cases object with
  | true =>
    have laid : ∀ entry ∈ entries, entry.Laid true := fun entry member => (formed.entry member).1
    rw [if_pos rfl, findIdx?_childrenOf laid] at found
    obtain rfl := Except.ok.inj found
    cases position : entries.findIdx? (fun entry => entry.name decode == token) with
    | some place =>
      obtain ⟨inside, _⟩ := List.findIdx?_eq_some_iff_getElem.mp position
      refine .inl ⟨place, inside, rfl, ?_⟩
      rw [slot, if_pos rfl, position]
    | none =>
      refine .inr ⟨fun place none_ => absurd none_ (by simp), fun _ => ?_⟩
      rw [slot, if_pos rfl, position]
      rfl
  | false =>
    rw [if_neg Bool.false_ne_true, length_childrenOf] at found
    obtain ⟨place, read, rfl⟩ := Except.map_eq_ok found
    obtain ⟨resolved, inside, strict⟩ := arrayIndex_spec read
    by_cases before_ : place < entries.length
    · exact .inl ⟨place, before_, rfl, resolved⟩
    have last : place = entries.length := by omega
    refine .inr ⟨fun other same => ?_, ?_⟩
    · obtain rfl := Option.some_inj.mp same
      exact last
    · rintro rfl
      rw [last] at resolved
      exact resolved

/-- The place of an entry by its index. -/
theorem exists_split {place : Nat} (inside : place < entries.length) :
    ∃ front entry back, entries = front ++ entry :: back ∧ place = front.length := by
  refine ⟨entries.take place, entries[place], entries.drop (place + 1), ?_, ?_⟩
  · rw [← List.drop_eq_getElem_cons inside, List.take_append_drop]
  · rw [List.length_take, Nat.min_eq_left (Nat.le_of_lt inside)]

/-- An edit of a child is one of the edits of its container. -/
theorem editChild_spec (correct : serde.Correct decode)
    (formed : (Doc.container object inner entries).WellFormed)
    (whole : source = before ++ (Doc.container object inner entries).print ++ after)
    (change : Change Doc)
    (edited : editChild serde source (nodeOf decode before.length (.container object inner entries))
      (childrenOf decode (before.length + 1) entries) token (change.new?.map Doc.print)
        change.isAdd = .ok edit) :
    ∃ result, ChildEdited decode token change (.container object inner entries) result ∧
      replaceRange source edit.1 edit.2 = before ++ result.print ++ after := by
  rw [editChild] at edited
  simp only at edited
  split at edited
  · cases edited
  next index found =>
    rcases found_spec formed found with ⟨place, inside, rfl, position⟩ | ⟨last, position⟩
    · obtain ⟨front, entry, back, rfl, rfl⟩ := exists_split inside
      have present : (some front.length).filter (fun index => decide (index <
          (childrenOf decode (before.length + 1) (front ++ entry :: back)).length)) =
            some front.length := by
        rw [Option.filter_some, length_childrenOf, decide_eq_true inside]
        rfl
      rw [present] at edited
      simp only at edited
      cases change with
      | add new =>
        cases object with
        | true =>
          obtain rfl := filled_inner formed (by simp)
          obtain rfl := Except.ok.inj edited
          exact ⟨_, .readded [] front back entry new position, replaceRange_value new whole⟩
        | false => exact insertion_before new formed whole position edited
      | replace new =>
        obtain rfl := filled_inner formed (by simp)
        obtain rfl := Except.ok.inj edited
        exact ⟨_, .replaced object [] front back entry new position, replaceRange_value new whole⟩
      | remove =>
        obtain ⟨range, removed, rfl⟩ := Except.map_eq_ok edited
        exact removal_spec formed whole position removed
    · have absent : index.filter (fun index => decide (index <
          (childrenOf decode (before.length + 1) entries).length)) = none := by
        cases index with
        | none => rfl
        | some place =>
          rw [Option.filter_some, last place rfl, length_childrenOf, decide_eq_false (lt_irrefl _)]
          rfl
      have atEnd : index.getD (childrenOf decode (before.length + 1) entries).length =
          entries.length := by
        rw [length_childrenOf]
        cases index with
        | none => rfl
        | some place => exact last place rfl
      rw [absent, atEnd] at edited
      simp only at edited
      cases change with
      | add new => exact insertion_end correct new formed whole (position rfl) edited
      | replace new => cases edited
      | remove => cases edited

/-- The edit at the end of a walk is an edit of the document. -/
theorem walk_spec (correct : serde.Correct decode) (change : Change Doc) (last : Text)
    (parents : List Text) {doc : Doc} (formed : doc.WellFormed) {parent : Node}
    (whole : source = before ++ doc.print ++ after)
    (walked : walk (nodeOf decode before.length doc) parents = .ok parent)
    {children : List (NodeEntry Node)} (isContainer : parent.children = some children)
    (edited : editChild serde source parent children last
      (change.new?.map Doc.print) change.isAdd = .ok edit) :
    ∃ result, Edited decode change (parents ++ [last]) doc result ∧
      replaceRange source edit.1 edit.2 = before ++ result.print ++ after := by
  induction parents generalizing doc before after with
  | nil =>
    obtain rfl := Except.ok.inj walked
    cases doc with
    | scalar spelling => cases isContainer
    | container object inner entries =>
      obtain rfl := Option.some_inj.mp isContainer
      obtain ⟨result, changed, replaced⟩ := editChild_spec correct formed whole change edited
      exact ⟨result, .child last _ result changed, replaced⟩
  | cons token rest ih =>
    cases doc with
    | scalar spelling => cases walked
    | container object inner entries =>
      rw [walk] at walked
      simp only [nodeOf, Node.children, Node.object] at walked
      split at walked
      · cases walked
      next index read =>
        have found : (if object then .ok ((childrenOf decode (before.length + 1) entries).findIdx?
            fun entry => entry.key == some token)
          else (arrayIndex token (childrenOf decode (before.length + 1) entries).length
            false).map some) = Except.ok (some index) := by
          cases object with
          | true =>
            simp only [↓reduceIte] at read ⊢
            split at read
            next position =>
              obtain rfl := Except.ok.inj read
              rw [position]
            · cases read
          | false =>
            simp only [Bool.false_eq_true, ↓reduceIte] at read ⊢
            rw [read]
            rfl
        rcases found_spec formed found with ⟨place, inside, same, position⟩ | ⟨atEnd, _⟩
        · obtain rfl := Option.some_inj.mp same
          obtain ⟨front, entry, back, rfl, rfl⟩ := exists_split inside
          obtain rfl := filled_inner formed (by simp)
          rw [@entryAt_headText _ object _ _ _ _, childOf_eq] at walked
          have parts : ∀ value : Doc,
              before ++ (Doc.container object [] (front ++ { entry with value := value } ::
                back)).print ++ after =
              (headText before object front ++ entry.lead ++ printKey entry.key) ++ value.print ++
                (entry.trail ++ tailText object back after) := by
            intro value
            rw [container_around, printEntry_eq]
            simp only [List.append_assoc]
          have lengths : (headText before object front ++ entry.lead ++
              printKey entry.key).length = (headText before object front).length +
                entry.lead.length + (printKey entry.key).length := by
            simp only [List.length_append]
          rw [← lengths] at walked
          obtain ⟨result, changed, replaced⟩ := ih (formed.entry (by simp)).2
            (whole.trans (parts entry.value)) walked
          refine ⟨_, .inside token (rest ++ [last]) (by simp) object [] front back entry result
            position changed, ?_⟩
          rw [replaced, parts]
        · have none_ := atEnd index rfl
          rw [none_] at found
          cases object with
          | true =>
            rw [if_pos rfl] at found
            have position := Except.ok.inj found
            obtain ⟨beyond, _⟩ := List.findIdx?_eq_some_iff_getElem.mp position
            rw [length_childrenOf] at beyond
            omega
          | false =>
            rw [if_neg Bool.false_ne_true] at found
            obtain ⟨place, read, same⟩ := Except.map_eq_ok found
            obtain rfl := Option.some_inj.mp same
            have beyond := (arrayIndex_spec read).2.2 rfl
            rw [length_childrenOf] at beyond
            omega

end Containers

/-! ## Operations -/

/-- The kind of a change. -/
def kind : Change Doc → OperationKind
  | .add _ => .add
  | .replace _ => .replace
  | .remove => .remove

/-- An operation spells the tokens of its pointer, and the document of its value. -/
structure Operation.Spells (operation : Operation) (tokens : List Text) (change : Change Doc) :
    Prop where
  path : operation.path = printPointer tokens
  op : operation.op = kind change
  value : operation.value = change.new?.map Doc.print
  formed : ∀ new, change.new? = some new → new.WellFormed

section Operations

variable {serde : SerdeJson} {decode : Text → Text} {source lead trail : Text} {doc : Doc}

variable {operation : Operation}

/-- The change of an operation that has a value when it needs one. -/
theorem exists_change (given : ∀ value, operation.value = some value →
      ∃ doc : Doc, doc.WellFormed ∧ value = doc.print)
    (needs : operation.value.isSome = (operation.op != .remove)) :
    ∃ change : Change Doc, operation.op = kind change ∧
      operation.value = change.new?.map Doc.print ∧
        ∀ new, change.new? = some new → new.WellFormed := by
  obtain ⟨op, path, value⟩ := operation
  cases op with
  | remove =>
    cases value with
    | none => exact ⟨.remove, rfl, rfl, fun new none_ => by cases none_⟩
    | some value => cases needs
  | add =>
    cases value with
    | none => cases needs
    | some value =>
      obtain ⟨new, formed, rfl⟩ := given value rfl
      exact ⟨.add new, rfl, rfl, fun other same => Option.some_inj.mp same ▸ formed⟩
  | replace =>
    cases value with
    | none => cases needs
    | some value =>
      obtain ⟨new, formed, rfl⟩ := given value rfl
      exact ⟨.replace new, rfl, rfl, fun other same => Option.some_inj.mp same ▸ formed⟩

/-- The two kinds of targets of an edit. -/
theorem edit_cases {root : Node} {change : (Nat × Nat) × Text}
    (found : edit serde source root operation = .ok change) :
    operation.value.isSome = (operation.op != .remove) ∧ ∃ tokens,
      pointer operation.path = .ok tokens ∧
        ((tokens = [] ∧ ∃ value, operation.value = some value ∧
            change = ((root.start, root.stop), value)) ∨
          ∃ parents last parent children, tokens = parents ++ [last] ∧
            walk root parents = .ok parent ∧ parent.children = some children ∧
              editChild serde source parent children last operation.value
                (operation.op == .add) = .ok change) := by
  have needs : operation.value.isSome = (operation.op != .remove) := by
    unfold edit at found
    obtain ⟨op, path, value⟩ := operation
    cases op <;> cases value <;> first | rfl | cases found
  refine ⟨needs, ?_⟩
  unfold edit at found
  split at found
  · cases found
  · cases found
  · cases found
  split at found
  · cases found
  next tokens read =>
    refine ⟨tokens, read, ?_⟩
    split at found
    next none_ =>
      rw [List.getLast?_eq_none_iff] at none_
      split at found
      next value written => exact .inl ⟨none_, value, written, (Except.ok.inj found).symm⟩
      · cases found
    next last atEnd =>
      split at found
      · cases found
      next parent walked =>
        split at found
        · cases found
        next children isContainer =>
          obtain ⟨parents, rfl⟩ := List.getLast?_eq_some_iff.mp atEnd
          rw [List.dropLast_concat] at walked
          exact .inr ⟨parents, last, parent, children, rfl, walked, isContainer, found⟩

/-- The text of an operation is replaced by that of an edited document. -/
theorem edit_spec (correct : serde.Correct decode) (formed : doc.WellFormed)
    (whole : source = lead ++ doc.print ++ trail) (given : ∀ value, operation.value = some value →
      ∃ doc : Doc, doc.WellFormed ∧ value = doc.print) {change : (Nat × Nat) × Text}
    (found : edit serde source (nodeOf decode lead.length doc) operation = .ok change) :
    ∃ tokens step result, operation.Spells tokens step ∧ Edited decode step tokens doc result ∧
      replaceRange source change.1 change.2 = lead ++ result.print ++ trail := by
  obtain ⟨needs, tokens, read, target⟩ := edit_cases found
  obtain ⟨step, op, value, stepFormed⟩ := exists_change given needs
  have spells : operation.Spells tokens step := ⟨pointer_spec read, op, value, stepFormed⟩
  rcases target with ⟨rfl, text, written, rfl⟩ | ⟨parents, last, parent, children, rfl, walked,
    isContainer, edited⟩
  · rw [value, Option.map_eq_some_iff] at written
    obtain ⟨new, isNew, rfl⟩ := written
    refine ⟨[], step, new, spells, .whole doc new isNew, ?_⟩
    rw [nodeOf_start, nodeOf_stop, whole]
    exact replaceRange_append lead doc.print trail new.print
  have isAdd : (operation.op == .add) = step.isAdd := by
    rw [op]
    cases step <;> rfl
  rw [value, isAdd] at edited
  obtain ⟨result, changed, replaced⟩ :=
    walk_spec correct step last parents formed whole walked isContainer edited
  exact ⟨parents ++ [last], step, result, spells, changed, replaced⟩

/-- The operations edit the document one after another. -/
theorem applyOperations_spec (correct : serde.Correct decode) {operations : List Operation}
    (given : ∀ operation ∈ operations, ∀ value, operation.value = some value →
      ∃ doc : Doc, doc.WellFormed ∧ value = doc.print)
    (leadBlank : Blank lead) (trailBlank : Blank trail) (formed : doc.WellFormed)
    (whole : source = lead ++ doc.print ++ trail) {result : Text}
    (applied : applyOperations serde source operations = .ok result) :
    ∃ steps doc', List.Forall₂ (fun operation step => operation.Spells step.1 step.2) operations
        steps ∧ EditedAll decode steps doc doc' ∧ doc'.WellFormed ∧
          result = lead ++ doc'.print ++ trail := by
  induction operations generalizing doc source with
  | nil =>
    obtain rfl := Except.ok.inj applied
    exact ⟨[], doc, .nil, .nil doc, formed, whole⟩
  | cons operation rest ih =>
    rw [applyOperations] at applied
    split at applied
    · cases applied
    next root parsed =>
      obtain ⟨otherLead, other, otherTrail, otherBlank, otherTrailBlank, otherFormed, otherWhole,
        rfl⟩ := parse_spec correct parsed
      obtain ⟨rfl, rfl, rfl⟩ := document_unique leadBlank otherBlank trailBlank otherTrailBlank
        formed otherFormed (whole.symm.trans otherWhole)
      split at applied
      · cases applied
      next range replacement found =>
        obtain ⟨tokens, step, next_, spells, edited, replaced⟩ := edit_spec correct formed whole
          (given operation List.mem_cons_self) found
        obtain ⟨steps, last, spelled, later, lastFormed, printed⟩ := ih
          (fun operation member => given operation (List.mem_cons_of_mem _ member))
            (edited.wellFormed formed spells.formed) replaced applied
        exact ⟨(tokens, step) :: steps, last, .cons spells spelled,
          .cons tokens step steps doc next_ last edited later, lastFormed, printed⟩

/-- A source that is edited is the text of a document. -/
theorem applyOperations_source (correct : serde.Correct decode) {operations : List Operation}
    (nonempty : operations ≠ []) {result : Text}
    (applied : applyOperations serde source operations = .ok result) : ∃ lead, ∃ doc : Doc,
      ∃ trail, Blank lead ∧ Blank trail ∧ doc.WellFormed ∧ source = lead ++ doc.print ++ trail := by
  cases operations with
  | nil => exact absurd rfl nonempty
  | cons operation rest =>
    rw [applyOperations] at applied
    split at applied
    · cases applied
    next root parsed =>
      obtain ⟨lead, doc, trail, leadBlank, trailBlank, formed, whole, _⟩ :=
        parse_spec correct parsed
      exact ⟨lead, doc, trail, leadBlank, trailBlank, formed, whole⟩

/-- The text that is accepted is that of a patched document. Its value is the one that the patch
    gives, and each operation leaves the spelling of the other entries as it is. -/
theorem apply_patches_document (correct : serde.Correct decode) {sha256 : Text → Text}
    {chunks : List UpdateFileChunk} {newline result : Text}
    (applied : apply serde sha256 source chunks newline = .ok result) :
    ∃ chunk operations, chunks = [chunk] ∧
      serde.operations (newline.intercalate chunk.newLines) = .ok operations ∧
      ∃ lead, ∃ doc : Doc, ∃ trail steps doc', Blank lead ∧ Blank trail ∧ doc.WellFormed ∧
        source = lead ++ doc.print ++ trail ∧
        List.Forall₂ (fun operation step => operation.Spells step.1 step.2) operations steps ∧
        EditedAll decode steps doc doc' ∧
        (doc.value decode).patchAll
          (steps.map fun step => (step.1, step.2.map (Doc.value decode))) =
            some (doc'.value decode) ∧
        doc'.WellFormed ∧ result = lead ++ doc'.print ++ trail ∧
          parse serde result = .ok (nodeOf decode lead.length doc') := by
  unfold apply at applied
  split at applied
  next chunk =>
    split at applied
    · cases applied
    split at applied
    · cases applied
    split at applied
    · cases applied
    split at applied
    · cases applied
    simp only at applied
    split at applied
    · cases applied
    split at applied
    · cases applied
    next operations read =>
      refine ⟨chunk, operations, rfl, read, ?_⟩
      split at applied
      · cases applied
      next nonempty =>
        split at applied
        · cases applied
        next text edited =>
          obtain ⟨root, parsed, rfl⟩ := Except.map_eq_ok applied
          obtain ⟨lead, doc, trail, leadBlank, trailBlank, formed, whole⟩ :=
            applyOperations_source correct (by simpa using nonempty) edited
          obtain ⟨steps, last, spelled, changed, lastFormed, printed⟩ :=
            applyOperations_spec correct (correct.operations _ _ read) leadBlank
              trailBlank formed whole edited
          obtain ⟨otherLead, other, otherTrail, otherBlank, otherTrailBlank, otherFormed,
            otherWhole, rfl⟩ := parse_spec correct parsed
          obtain ⟨rfl, rfl, rfl⟩ := document_unique leadBlank otherBlank trailBlank
            otherTrailBlank lastFormed otherFormed (printed.symm.trans otherWhole)
          exact ⟨lead, doc, trail, steps, last, leadBlank, trailBlank, formed, whole,
            spelled, changed, changed.value, lastFormed, printed, parsed⟩
  · cases applied

end Operations

/-! ## One document -/

/-- A string in JSON, of a text without control characters. -/
def quote (text : Text) : Text :=
  '"' :: (text.flatMap (fun c => if c = '"' ∨ c = '\\' then ['\\', c] else [c]) ++ ['"'])

/-- The text up to the quote that closes a string. -/
def unquoteBody : Bool → Text → Text
  | _, [] => []
  | escaped, c :: text =>
      if escaped then c :: unquoteBody false text
      else if c = '"' then []
      else if c = '\\' then unquoteBody true text
      else c :: unquoteBody false text

def unquote (text : Text) : Text := unquoteBody false text.tail

theorem quote_spec (text : Text) : isString (quote text) = true ∧ unquote (quote text) = text := by
  rw [quote, isString, unquote, List.tail_cons]
  simp only [BEq.rfl, Bool.true_and]
  induction text with
  | nil => exact ⟨rfl, rfl⟩
  | cons c rest ih =>
    rw [List.flatMap_cons]
    by_cases special : c = '"' ∨ c = '\\'
    · rw [if_pos special]
      rcases special with rfl | rfl <;> simpa [isStringBody, unquoteBody] using ih
    · rw [if_neg special]
      rw [not_or] at special
      have plain : (c == '\\') = false := by simpa using special.2
      simpa [isStringBody, unquoteBody, special.1, special.2, plain] using ih

/-- A member that is written without whitespace. -/
def plainMember (key value : String) : Entry Doc :=
  ⟨[], some ('"' :: (key.toList ++ ['"']), [':']), .scalar value.toList, []⟩

def plainObject (members : List (String × String)) : Doc :=
  .container true [] (members.map fun member => plainMember member.1 member.2)

theorem plainObject_wellFormed {members : List (String × String)}
    (keys : ∀ member ∈ members, isString ('"' :: (member.1.toList ++ ['"'])) = true)
    (values : ∀ member ∈ members, isString member.2.toList = true ∨
      (member.2.toList ≠ [] ∧ ∀ c ∈ member.2.toList, isBare c = true)) :
    (plainObject members).WellFormed := by
  refine .container true [] _ Blank.nil (fun _ => rfl) ?_ ?_
  · intro entry listed
    obtain ⟨member, own, rfl⟩ := List.mem_map.mp listed
    refine ⟨Blank.nil, Blank.nil, ?_, rfl⟩
    intro key written
    obtain rfl := Option.some_inj.mp written
    exact ⟨keys member own, [], [], Blank.nil, Blank.nil, rfl⟩
  · intro entry listed
    obtain ⟨member, own, rfl⟩ := List.mem_map.mp listed
    exact .scalar _ (values member own)

/-- What serde_json reads of a document, of an addition to it, and of the result. -/
def additionSerde : SerdeJson where
  rawValue text :=
    if text = "\x7b\"a\":1\x7d".toList then .ok (0, 7)
    else if text = "[\x7b\"op\":\"add\",\"path\":\"/b\",\"value\":2\x7d]".toList then .ok (0, 36)
    else if text = "\x7b\"a\":1,\"b\":2\x7d".toList then .ok (0, 13)
    else .error "expected value".toList
  elements text :=
    if text = "[\x7b\"op\":\"add\",\"path\":\"/b\",\"value\":2\x7d]".toList then .ok [(1, 34)]
    else .error "expected value".toList
  members text :=
    if text = "\x7b\"a\":1\x7d".toList then .ok [("a".toList, 5, 1)]
    else if text = "\x7b\"op\":\"add\",\"path\":\"/b\",\"value\":2\x7d".toList then
      .ok [("op".toList, 6, 5), ("path".toList, 19, 4), ("value".toList, 32, 1)]
    else if text = "\x7b\"a\":1,\"b\":2\x7d".toList then .ok [("a".toList, 5, 1), ("b".toList, 11, 1)]
    else .error "expected value".toList
  encodeString := quote
  operations text :=
    if text = "[\x7b\"op\":\"add\",\"path\":\"/b\",\"value\":2\x7d]".toList then
      .ok [⟨.add, "/b".toList, some "2".toList⟩]
    else .error "expected value".toList

theorem additionSerde_correct : additionSerde.Correct unquote := by
  have source : (plainObject [("a", "1")]).WellFormed :=
    plainObject_wellFormed (by decide) (by simp [isString, isStringBody, isBare, isBlank])
  have operation : (plainObject [("op", "\"add\""), ("path", "\"/b\""),
      ("value", "2")]).WellFormed := plainObject_wellFormed (by decide)
      (by simp [isString, isStringBody, isBare, isBlank])
  have result : (plainObject [("a", "1"), ("b", "2")]).WellFormed :=
    plainObject_wellFormed (by decide) (by simp [isString, isStringBody, isBare, isBlank])
  have payload : (Doc.container false [] [⟨[], none, plainObject [("op", "\"add\""),
      ("path", "\"/b\""), ("value", "2")], []⟩]).WellFormed := by
    refine .container false [] _ Blank.nil (fun _ => rfl) ?_ ?_
    · intro entry listed
      obtain rfl := List.mem_singleton.mp listed
      exact ⟨Blank.nil, Blank.nil, fun key none_ => absurd none_ (by simp), rfl⟩
    · intro entry listed
      obtain rfl := List.mem_singleton.mp listed
      exact operation
  refine ⟨?_, ?_, ?_, quote_spec, ?_⟩
  · intro text start len read
    simp only [additionSerde] at read
    split at read
    next same =>
      obtain ⟨rfl, rfl⟩ := Prod.mk.inj (Except.ok.inj read)
      exact ⟨[], _, [], Blank.nil, Blank.nil, source, same, rfl, rfl⟩
    · split at read
      next same =>
        obtain ⟨rfl, rfl⟩ := Prod.mk.inj (Except.ok.inj read)
        exact ⟨[], _, [], Blank.nil, Blank.nil, payload, same, rfl, rfl⟩
      · split at read
        next same =>
          obtain ⟨rfl, rfl⟩ := Prod.mk.inj (Except.ok.inj read)
          exact ⟨[], _, [], Blank.nil, Blank.nil, result, same, rfl, rfl⟩
        · cases read
  · intro text spans read
    simp only [additionSerde] at read
    split at read
    next same =>
      obtain rfl := Except.ok.inj read
      exact ⟨[], _, payload, same, rfl⟩
    · cases read
  · intro text members read
    simp only [additionSerde] at read
    split at read
    next same =>
      obtain rfl := Except.ok.inj read
      exact ⟨[], _, source, same, by decide⟩
    · split at read
      next same =>
        obtain rfl := Except.ok.inj read
        exact ⟨[], _, operation, same, by decide⟩
      · split at read
        next same =>
          obtain rfl := Except.ok.inj read
          exact ⟨[], _, result, same, by decide⟩
        · cases read
  · intro text operations read operation_ member value written
    simp only [additionSerde] at read
    split at read
    · obtain rfl := Except.ok.inj read
      obtain rfl := List.mem_singleton.mp member
      obtain rfl := Option.some_inj.mp written
      exact ⟨.scalar "2".toList, .scalar _ (.inr (by simp [isBare, isBlank])), rfl⟩
    · cases read

/-- A member is added after the one that is there. -/
theorem apply_patches_document_addition : ∃ lead, ∃ doc : Doc, ∃ trail, Blank lead ∧ Blank trail ∧
    doc.WellFormed ∧ "\x7b\"a\":1,\"b\":2\x7d".toList = lead ++ doc.print ++ trail := by
  obtain ⟨_, _, _, _, lead, _, trail, _, last, leadBlank, trailBlank, _, _, _, _, _, formed, printed,
    _⟩ := @apply_patches_document additionSerde unquote "\x7b\"a\":1\x7d".toList additionSerde_correct
      (fun _ => "015abd7f5cc57a2dd94b7590f04ad8084273905ee33ec5cebeae62276a97f862".toList)
      [⟨some "codex-json sha256:015abd7f5cc57a2dd94b7590f04ad8084273905ee33ec5cebeae62276a97f862".toList,
        [], ["[\x7b\"op\":\"add\",\"path\":\"/b\",\"value\":2\x7d]".toList], [.add], false⟩]
      "\n".toList "\x7b\"a\":1,\"b\":2\x7d".toList (by decide +kernel)
  exact ⟨lead, last, trail, leadBlank, trailBlank, formed, printed⟩

end Codex.ApplyPatch.JsonEdit
