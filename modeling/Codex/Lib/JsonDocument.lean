import Codex.Lib.Text

/-!
# JSON documents

The syntax tree of a JSON text with its whitespace and the spelling of its scalars and keys, so that
printing a tree gives back the text. The grammar is unambiguous: a text has one tree.
-/

namespace Codex.JsonDocument

open Codex.Text

/-- JSON whitespace. -/
def isBlank (c : Char) : Bool := c == ' ' || c == '\t' || c == '\n' || c == '\r'

def Blank (text : Text) : Prop := ∀ c ∈ text, isBlank c = true

/-- A character of a number, `true`, `false` or `null`. -/
def isBare (c : Char) : Bool :=
  !isBlank c && c != ',' && c != ':' && c != '[' && c != ']' && c != '{' && c != '}' && c != '"'

/-- The text after the opening quote of a string is its body and the closing quote. A character
    after a backslash is escaped. -/
def isStringBody : Bool → Text → Bool
  | _, [] => false
  | escaped, c :: text =>
      if escaped then isStringBody false text
      else if c = '"' then text.isEmpty
      else isStringBody (c == '\\') text

/-- A string with its quotes. -/
def isString : Text → Bool
  | [] => false
  | c :: text => c == '"' && isStringBody false text

/-- The colon between a key and its value, with the whitespace around it. -/
def IsColon (colon : Text) : Prop :=
  ∃ before after, Blank before ∧ Blank after ∧ colon = before ++ ':' :: after

/-- An element of an array, or a member of an object, with the whitespace before and after it. The
    key of a member has its own spelling, and the text up to its value. -/
structure Entry (α : Type) where
  lead : Text
  key : Option (Text × Text)
  value : α
  trail : Text

/-- A JSON value as it is written. An empty container has its whitespace only. -/
inductive Doc where
  | scalar (spelling : Text)
  | container (object : Bool) (inner : Text) (entries : List (Entry Doc))

def opening (object : Bool) : Char := if object then '{' else '['

def closing (object : Bool) : Char := if object then '}' else ']'

def printKey : Option (Text × Text) → Text
  | none => []
  | some (token, colon) => token ++ colon

mutual

def Doc.print : Doc → Text
  | .scalar spelling => spelling
  | .container object inner entries =>
      opening object :: (inner ++ printEntries entries ++ [closing object])

def printEntries : List (Entry Doc) → Text
  | [] => []
  | [entry] => printEntry entry
  | entry :: rest => printEntry entry ++ ',' :: printEntries rest

def printEntry : Entry Doc → Text
  | ⟨lead, key, value, trail⟩ => lead ++ printKey key ++ value.print ++ trail

end

/-- The parts of an entry that are not its value. -/
structure Entry.Laid {α : Type} (object : Bool) (entry : Entry α) : Prop where
  lead : Blank entry.lead
  trail : Blank entry.trail
  key : ∀ key, entry.key = some key → isString key.1 = true ∧ IsColon key.2
  keyed : entry.key.isSome = object

inductive Doc.WellFormed : Doc → Prop where
  | scalar (spelling : Text)
      (token : isString spelling = true ∨ (spelling ≠ [] ∧ ∀ c ∈ spelling, isBare c = true)) :
      Doc.WellFormed (.scalar spelling)
  | container (object : Bool) (inner : Text) (entries : List (Entry Doc)) (blank : Blank inner)
      (filled : entries ≠ [] → inner = []) (laid : ∀ entry ∈ entries, entry.Laid object)
      (values : ∀ entry ∈ entries, entry.value.WellFormed) :
      Doc.WellFormed (.container object inner entries)

/-- What a document means: members in their order, by decoded key. A scalar is its spelling. -/
inductive Value where
  | scalar (spelling : Text)
  | array (values : List Value)
  | object (members : List (Text × Value))

/-- The key of an entry. -/
def Entry.name {α : Type} (decode : Text → Text) (entry : Entry α) : Text :=
  decode ((entry.key.map Prod.fst).getD [])

mutual

def Doc.value (decode : Text → Text) : Doc → Value
  | .scalar spelling => .scalar spelling
  | .container object _ entries =>
      if object then .object (memberValues decode entries) else .array (elementValues decode entries)

def elementValues (decode : Text → Text) : List (Entry Doc) → List Value
  | [] => []
  | entry :: rest => entryValue decode entry :: elementValues decode rest

def memberValues (decode : Text → Text) : List (Entry Doc) → List (Text × Value)
  | [] => []
  | entry :: rest => (entry.name decode, entryValue decode entry) :: memberValues decode rest

def entryValue (decode : Text → Text) : Entry Doc → Value
  | ⟨_, _, value, _⟩ => value.value decode

end

section Values

variable (decode : Text → Text)

@[simp] theorem entryValue_eq (entry : Entry Doc) :
    entryValue decode entry = entry.value.value decode := by
  cases entry
  rfl

theorem elementValues_eq (entries : List (Entry Doc)) :
    elementValues decode entries = entries.map fun entry => entry.value.value decode := by
  induction entries with
  | nil => rfl
  | cons entry rest ih => rw [elementValues, ih, List.map_cons, entryValue_eq]

theorem memberValues_eq (entries : List (Entry Doc)) : memberValues decode entries =
    entries.map fun entry => (entry.name decode, entry.value.value decode) := by
  induction entries with
  | nil => rfl
  | cons entry rest ih => rw [memberValues, ih, List.map_cons, entryValue_eq]

end Values

theorem printEntry_eq (entry : Entry Doc) :
    printEntry entry = entry.lead ++ printKey entry.key ++ entry.value.print ++ entry.trail := by
  cases entry
  rfl

theorem printEntries_cons_cons (entry second : Entry Doc) (rest : List (Entry Doc)) :
    printEntries (entry :: second :: rest) =
      printEntry entry ++ ',' :: printEntries (second :: rest) := by
  rw [printEntries]
  simp

/-- The entries before one, each with its comma. -/
def printFront (entries : List (Entry Doc)) : Text :=
  entries.flatMap fun entry => printEntry entry ++ [',']

/-- The entries after one, each with the comma before it. -/
def printBack (entries : List (Entry Doc)) : Text :=
  entries.flatMap fun entry => ',' :: printEntry entry

theorem printBack_cons (entry : Entry Doc) (rest : List (Entry Doc)) :
    printBack (entry :: rest) = ',' :: (printEntry entry ++ printBack rest) := rfl

theorem printEntries_cons (entry : Entry Doc) (rest : List (Entry Doc)) :
    printEntries (entry :: rest) = printEntry entry ++ printBack rest := by
  induction rest generalizing entry with
  | nil => simp [printEntries, printBack]
  | cons second rest ih =>
    rw [printEntries_cons_cons, ih]
    simp [printBack]

/-- The text of entries around one of them. -/
theorem printEntries_split (front : List (Entry Doc)) (entry : Entry Doc)
    (back : List (Entry Doc)) : printEntries (front ++ entry :: back) =
      printFront front ++ printEntry entry ++ printBack back := by
  induction front with
  | nil => rw [List.nil_append, printEntries_cons]; rfl
  | cons first rest ih =>
    have step : printEntries (first :: (rest ++ entry :: back)) =
        printEntry first ++ ',' :: printEntries (rest ++ entry :: back) := by
      cases rest <;> exact printEntries_cons_cons _ _ _
    rw [List.cons_append, step, ih]
    simp [printFront]

section Unambiguity

variable {first second x y : Text} {doc : Doc} {object : Bool}

/-- A text of one class of characters ends where the first other character is. -/
theorem append_inj_of_class {property : Char → Bool} (firstIn : ∀ c ∈ first, property c = true)
    (secondIn : ∀ c ∈ second, property c = true) (firstEnds : ∀ c ∈ x.head?, property c = false)
    (secondEnds : ∀ c ∈ y.head?, property c = false)
    (same : first ++ x = second ++ y) : first = second ∧ x = y := by
  induction first generalizing second with
  | nil =>
    cases second with
    | nil => exact ⟨rfl, same⟩
    | cons c rest =>
      rw [List.nil_append] at same
      have ends := firstEnds c (by rw [same]; rfl)
      rw [secondIn c List.mem_cons_self] at ends
      cases ends
  | cons c rest ih =>
    cases second with
    | nil =>
      rw [List.nil_append] at same
      have ends := secondEnds c (by rw [← same]; rfl)
      rw [firstIn c List.mem_cons_self] at ends
      cases ends
    | cons d others =>
      obtain ⟨rfl, tails⟩ := List.cons.inj same
      obtain ⟨rfl, after⟩ := ih (fun c member => firstIn c (List.mem_cons_of_mem _ member))
        (fun c member => secondIn c (List.mem_cons_of_mem _ member)) tails
      exact ⟨rfl, after⟩

theorem isStringBody_append_inj {escaped : Bool} (firstBody : isStringBody escaped first = true)
    (secondBody : isStringBody escaped second = true) (same : first ++ x = second ++ y) :
    first = second ∧ x = y := by
  induction first generalizing escaped second with
  | nil => cases firstBody
  | cons c rest ih =>
    cases second with
    | nil => cases secondBody
    | cons d others =>
      obtain ⟨rfl, tails⟩ := List.cons.inj same
      rw [isStringBody] at firstBody secondBody
      split at firstBody
      next escapes =>
        rw [if_pos escapes] at secondBody
        obtain ⟨rfl, after⟩ := ih firstBody secondBody tails
        exact ⟨rfl, after⟩
      next plain =>
        rw [if_neg plain] at secondBody
        split at firstBody
        next quote =>
          rw [if_pos quote, List.isEmpty_iff] at secondBody
          rw [List.isEmpty_iff] at firstBody
          subst firstBody secondBody
          exact ⟨rfl, tails⟩
        next other =>
          rw [if_neg other] at secondBody
          obtain ⟨rfl, after⟩ := ih firstBody secondBody tails
          exact ⟨rfl, after⟩

theorem isString_append_inj (firstString : isString first = true)
    (secondString : isString second = true) (same : first ++ x = second ++ y) :
    first = second ∧ x = y := by
  cases first with
  | nil => cases firstString
  | cons c rest =>
    cases second with
    | nil => cases secondString
    | cons d others =>
      rw [isString, Bool.and_eq_true] at firstString secondString
      obtain ⟨rfl, tails⟩ := List.cons.inj same
      obtain ⟨rfl, after⟩ := isStringBody_append_inj firstString.2 secondString.2 tails
      exact ⟨rfl, after⟩

theorem isBare_of_not_blank {c : Char} (bare : isBare c = true) : isBlank c = false := by
  unfold isBare at bare
  simp only [Bool.and_eq_true, Bool.not_eq_true'] at bare
  exact bare.1.1.1.1.1.1.1

/-- What may follow a value: not a character that would belong to it. -/
def Ends (text : Text) : Prop := ∀ c ∈ text.head?, isBare c = false

/-- What may follow whitespace. -/
def Visible (text : Text) : Prop := ∀ c ∈ text.head?, isBlank c = false

theorem isBare_of_blank {c : Char} (blank : isBlank c = true) : isBare c = false := by
  simp [isBare, blank]

theorem Ends.blank_append {blank text : Text} (isBlank_ : Blank blank) (ends : Ends text) :
    Ends (blank ++ text) := by
  cases blank with
  | nil => exact ends
  | cons c rest =>
    intro d head
    obtain rfl := Option.some_inj.mp head
    exact isBare_of_blank (isBlank_ c List.mem_cons_self)

/-- A value starts with a visible character that closes no container. -/
theorem Doc.WellFormed.starts (wellFormed : doc.WellFormed) :
    ∃ c rest, doc.print = c :: rest ∧ isBlank c = false ∧ c ≠ ']' ∧ c ≠ '}' := by
  cases wellFormed with
  | scalar spelling token =>
    rcases token with isString_ | ⟨nonempty, bare⟩
    · cases spelling with
      | nil => cases isString_
      | cons c rest =>
        rw [isString, Bool.and_eq_true, beq_iff_eq] at isString_
        obtain ⟨rfl, _⟩ := isString_
        exact ⟨'"', rest, rfl, by decide, by decide, by decide⟩
    cases spelling with
    | nil => exact absurd rfl nonempty
    | cons c rest =>
      have own := bare c List.mem_cons_self
      refine ⟨c, rest, rfl, isBare_of_not_blank own, ?_, ?_⟩
      · rintro rfl
        exact absurd own (by decide)
      · rintro rfl
        exact absurd own (by decide)
  | container object inner entries blank filled laid values =>
    refine ⟨opening object, inner ++ printEntries entries ++ [closing object], rfl, ?_⟩
    cases object <;> decide

theorem closing_visible (object : Bool) (rest : Text) : Visible (closing object :: rest) := by
  intro c head
  obtain rfl := Option.some_inj.mp head
  cases object <;> decide

theorem closing_ends (object : Bool) (rest : Text) : Ends (closing object :: rest) := by
  intro c head
  obtain rfl := Option.some_inj.mp head
  cases object <;> decide

theorem Doc.WellFormed.visible (wellFormed : doc.WellFormed) (rest : Text) :
    Visible (doc.print ++ rest) := by
  obtain ⟨c, others, same, visible, _⟩ := wellFormed.starts
  rw [same]
  intro d head
  obtain rfl := Option.some_inj.mp head
  exact visible

/-- The whitespace before something visible. -/
theorem blank_append_inj (firstBlank : Blank first) (secondBlank : Blank second)
    (firstVisible : Visible x) (secondVisible : Visible y)
    (same : first ++ x = second ++ y) : first = second ∧ x = y :=
  append_inj_of_class firstBlank secondBlank firstVisible secondVisible same

theorem IsColon.append_inj (firstColon : IsColon first) (secondColon : IsColon second)
    (firstVisible : Visible x) (secondVisible : Visible y)
    (same : first ++ x = second ++ y) : first = second ∧ x = y := by
  obtain ⟨before, after, beforeBlank, afterBlank, rfl⟩ := firstColon
  obtain ⟨before', after', beforeBlank', afterBlank', rfl⟩ := secondColon
  rw [List.append_assoc, List.append_assoc] at same
  have colon : ∀ rest : Text, Visible (':' :: rest) := by
    intro rest c head
    obtain rfl := Option.some_inj.mp head
    decide
  obtain ⟨rfl, colons⟩ := blank_append_inj beforeBlank beforeBlank' (colon _) (colon _) same
  obtain ⟨rfl, tails⟩ := blank_append_inj afterBlank afterBlank' firstVisible secondVisible
    (List.cons.inj colons).2
  exact ⟨rfl, tails⟩

/-- The key of an entry and what follows it. -/
theorem key_append_inj {first second : Entry Doc} (firstLaid : first.Laid object)
    (secondLaid : second.Laid object) (firstVisible : Visible x) (secondVisible : Visible y)
    (same : printKey first.key ++ x = printKey second.key ++ y) :
    first.key = second.key ∧ x = y := by
  cases firstKey : first.key with
  | none =>
    have keyed := firstLaid.keyed.trans secondLaid.keyed.symm
    rw [firstKey, Option.isSome_none] at keyed
    have secondKey : second.key = none := by simpa using keyed.symm
    rw [firstKey, secondKey] at same
    exact ⟨secondKey.symm, same⟩
  | some key =>
    have keyed := firstLaid.keyed.trans secondLaid.keyed.symm
    rw [firstKey, Option.isSome_some] at keyed
    obtain ⟨other, secondKey⟩ := Option.isSome_iff_exists.mp keyed.symm
    obtain ⟨token, colon⟩ := key
    obtain ⟨otherToken, otherColon⟩ := other
    obtain ⟨firstToken, firstColon⟩ := firstLaid.key _ firstKey
    obtain ⟨secondToken, secondColon⟩ := secondLaid.key _ secondKey
    rw [firstKey, secondKey, printKey, printKey, List.append_assoc, List.append_assoc] at same
    obtain ⟨rfl, colons⟩ := isString_append_inj firstToken secondToken same
    obtain ⟨rfl, tails⟩ := firstColon.append_inj secondColon firstVisible secondVisible colons
    exact ⟨secondKey.symm, tails⟩

/-- A key or a value starts with a visible character that closes no container. -/
theorem entry_starts {entry : Entry Doc} (laid : entry.Laid object)
    (wellFormed : entry.value.WellFormed) (rest : Text) :
    ∃ c others, printKey entry.key ++ (entry.value.print ++ rest) = c :: others ∧
      isBlank c = false ∧ c ≠ closing object := by
  have closes : ∀ {c : Char}, c ≠ ']' → c ≠ '}' → c ≠ closing object := by
    intro c bracket brace
    cases object
    · exact bracket
    · exact brace
  cases key : entry.key with
  | none =>
    obtain ⟨c, others, same, visible, bracket, brace⟩ := wellFormed.starts
    rw [printKey, same]
    exact ⟨c, others ++ rest, rfl, visible, closes bracket brace⟩
  | some pair =>
    obtain ⟨token, colon⟩ := pair
    have token_ := (laid.key _ key).1
    cases token with
    | nil => cases token_
    | cons c others =>
      rw [isString, Bool.and_eq_true, beq_iff_eq] at token_
      obtain ⟨rfl, _⟩ := token_
      exact ⟨'"', others ++ colon ++ (entry.value.print ++ rest), rfl, by decide,
        closes (by decide) (by decide)⟩

/-- An entry and what follows it, when its value is determined. -/
theorem entry_append_inj {first second : Entry Doc} (firstLaid : first.Laid object)
    (secondLaid : second.Laid object) (firstFormed : first.value.WellFormed)
    (secondFormed : second.value.WellFormed) (firstVisible : Visible x) (secondVisible : Visible y)
    (firstEnds : Ends x) (secondEnds : Ends y)
    (value : ∀ x y, Ends x → Ends y → first.value.print ++ x = second.value.print ++ y →
      first.value = second.value ∧ x = y)
    (same : printEntry first ++ x = printEntry second ++ y) : first = second ∧ x = y := by
  rw [printEntry_eq, printEntry_eq] at same
  simp only [List.append_assoc] at same
  have starts : ∀ {entry : Entry Doc} {rest : Text}, entry.Laid object → entry.value.WellFormed →
      Visible (printKey entry.key ++ (entry.value.print ++ rest)) := by
    intro entry rest laid formed
    obtain ⟨c, others, same, visible, _⟩ := entry_starts laid formed rest
    rw [same]
    intro d head
    obtain rfl := Option.some_inj.mp head
    exact visible
  obtain ⟨lead, keys⟩ := blank_append_inj firstLaid.lead secondLaid.lead
    (starts firstLaid firstFormed) (starts secondLaid secondFormed) same
  obtain ⟨key, values⟩ := key_append_inj firstLaid secondLaid (firstFormed.visible _)
    (secondFormed.visible _) keys
  obtain ⟨doc, trails⟩ := value _ _ (firstEnds.blank_append firstLaid.trail)
    (secondEnds.blank_append secondLaid.trail) values
  obtain ⟨trail, tails⟩ := blank_append_inj firstLaid.trail secondLaid.trail firstVisible
    secondVisible trails
  obtain ⟨firstLead, firstKey, firstValue, firstTrail⟩ := first
  obtain ⟨secondLead, secondKey, secondValue, secondTrail⟩ := second
  simp only at lead key doc trail
  subst lead key doc trail
  exact ⟨rfl, tails⟩

theorem comma_visible (rest : Text) : Visible (',' :: rest) ∧ Ends (',' :: rest) := by
  refine ⟨?_, ?_⟩
  · intro c head
    obtain rfl := Option.some_inj.mp head
    decide
  · intro c head
    obtain rfl := Option.some_inj.mp head
    decide

/-- The entries after the first, up to the end of their container. -/
theorem printBack_append_inj {first second : List (Entry Doc)}
    (firstLaid : ∀ entry ∈ first, entry.Laid object)
    (secondLaid : ∀ entry ∈ second, entry.Laid object)
    (firstFormed : ∀ entry ∈ first, entry.value.WellFormed)
    (secondFormed : ∀ entry ∈ second, entry.value.WellFormed)
    (value : ∀ entry ∈ first, ∀ other ∈ second, ∀ x y, Ends x → Ends y →
      entry.value.print ++ x = other.value.print ++ y → entry.value = other.value ∧ x = y)
    (same : printBack first ++ closing object :: x = printBack second ++ closing object :: y) :
    first = second ∧ x = y := by
  have back : ∀ (entries : List (Entry Doc)) (rest : Text),
      Visible (printBack entries ++ closing object :: rest) ∧
        Ends (printBack entries ++ closing object :: rest) := by
    intro entries rest
    cases entries with
    | nil => exact ⟨closing_visible object rest, closing_ends object rest⟩
    | cons entry others => exact comma_visible _
  have comma : ',' ≠ closing object := by cases object <;> decide
  induction first generalizing second with
  | nil =>
    cases second with
    | nil => exact ⟨rfl, (List.cons.inj same).2⟩
    | cons other others => exact absurd (List.cons.inj same).1.symm comma
  | cons entry rest ih =>
    cases second with
    | nil => exact absurd (List.cons.inj same).1 comma
    | cons other others =>
      rw [printBack_cons, printBack_cons, List.cons_append, List.cons_append] at same
      have tails := (List.cons.inj same).2
      rw [List.append_assoc, List.append_assoc] at tails
      obtain ⟨rfl, later⟩ := entry_append_inj (firstLaid entry List.mem_cons_self)
        (secondLaid other List.mem_cons_self) (firstFormed entry List.mem_cons_self)
        (secondFormed other List.mem_cons_self) (back rest x).1 (back others y).1 (back rest x).2
        (back others y).2 (value entry List.mem_cons_self other List.mem_cons_self) tails
      obtain ⟨rfl, after⟩ := ih (fun entry member => firstLaid entry (List.mem_cons_of_mem _ member))
        (fun entry member => secondLaid entry (List.mem_cons_of_mem _ member))
        (fun entry member => firstFormed entry (List.mem_cons_of_mem _ member))
        (fun entry member => secondFormed entry (List.mem_cons_of_mem _ member))
        (fun entry member other listed => value entry (List.mem_cons_of_mem _ member) other
          (List.mem_cons_of_mem _ listed)) later
      exact ⟨rfl, after⟩

theorem length_value_lt {entry : Entry Doc} {entries : List (Entry Doc)} (object : Bool)
    (inner : Text) (member : entry ∈ entries) :
    entry.value.print.length < (Doc.container object inner entries).print.length := by
  obtain ⟨front, back, rfl⟩ := List.append_of_mem member
  rw [Doc.print, printEntries_split, printEntry_eq]
  simp only [List.length_cons, List.length_append]
  omega

/-- The inside of a container up to its end. -/
theorem inside_append_inj {inner otherInner : Text} {first second : List (Entry Doc)}
    (firstFormed : (Doc.container object inner first).WellFormed)
    (secondFormed : (Doc.container object otherInner second).WellFormed)
    (value : ∀ entry ∈ first, ∀ other ∈ second, ∀ x y, Ends x → Ends y →
      entry.value.print ++ x = other.value.print ++ y → entry.value = other.value ∧ x = y)
    (same : inner ++ printEntries first ++ closing object :: x =
      otherInner ++ printEntries second ++ closing object :: y) :
    inner = otherInner ∧ first = second ∧ x = y := by
  cases firstFormed with
  | container _ _ _ blank filled laid values =>
  cases secondFormed with
  | container _ _ _ otherBlank otherFilled otherLaid otherValues =>
  -- an empty container and one with an entry differ where the first entry starts
  have empty : ∀ {inner otherInner : Text} {entry : Entry Doc} {others : List (Entry Doc)}
      {x y : Text}, Blank inner → entry.Laid object → entry.value.WellFormed → otherInner = [] →
      inner ++ closing object :: x ≠
        otherInner ++ printEntries (entry :: others) ++ closing object :: y := by
    intro inner otherInner entry others x y blank laid formed none_ equal
    rw [none_, List.nil_append, printEntries_cons, printEntry_eq] at equal
    simp only [List.append_assoc] at equal
    obtain ⟨c, rest, starts, visible, closes⟩ := entry_starts laid formed
      (entry.trail ++ (printBack others ++ closing object :: y))
    rw [starts] at equal
    have after : Visible (c :: rest) := by
      intro d head
      obtain rfl := Option.some_inj.mp head
      exact visible
    obtain ⟨_, tails⟩ := blank_append_inj blank laid.lead (closing_visible object x) after equal
    exact closes (List.cons.inj tails).1.symm
  cases first with
  | nil =>
    cases second with
    | nil =>
      rw [printEntries, List.append_nil, List.append_nil] at same
      obtain ⟨inners, tails⟩ := blank_append_inj blank otherBlank (closing_visible object x)
        (closing_visible object y) same
      exact ⟨inners, rfl, (List.cons.inj tails).2⟩
    | cons other others =>
      rw [printEntries, List.append_nil] at same
      exact absurd same (empty blank (otherLaid other List.mem_cons_self)
        (otherValues other List.mem_cons_self) (otherFilled (List.cons_ne_nil _ _)))
  | cons entry rest =>
    cases second with
    | nil =>
      rw [printEntries, List.append_nil] at same
      exact absurd same.symm (empty otherBlank (laid entry List.mem_cons_self)
        (values entry List.mem_cons_self) (filled (List.cons_ne_nil _ _)))
    | cons other others =>
      obtain rfl := filled (List.cons_ne_nil _ _)
      obtain rfl := otherFilled (List.cons_ne_nil _ _)
      rw [List.nil_append, List.nil_append] at same
      -- with a comma in front the first entry is like the others
      have backs : printBack (entry :: rest) ++ closing object :: x =
          printBack (other :: others) ++ closing object :: y := by
        rw [printBack_cons, printBack_cons, ← printEntries_cons, ← printEntries_cons,
          List.cons_append, List.cons_append, same]
      obtain ⟨entries, tails⟩ := printBack_append_inj laid otherLaid values otherValues value backs
      exact ⟨rfl, entries, tails⟩

/-- A text has one tree: a document and what follows it. -/
theorem Doc.print_append_inj {first second : Doc} (firstFormed : first.WellFormed)
    (secondFormed : second.WellFormed) (firstEnds : Ends x) (secondEnds : Ends y)
    (same : first.print ++ x = second.print ++ y) : first = second ∧ x = y := by
  induction length : first.print.length using Nat.strong_induction_on generalizing
    first second x y with
  | _ length ih =>
    subst length
    -- a container and a scalar differ in their first character
    have apart : ∀ {object : Bool} {inner : Text} {entries : List (Entry Doc)} {spelling : Text}
        {x y : Text}, (Doc.scalar spelling).WellFormed →
        (Doc.container object inner entries).print ++ x ≠ spelling ++ y := by
      intro object inner entries spelling x y formed equal
      cases formed with
      | scalar _ token =>
        rw [Doc.print, List.cons_append] at equal
        cases spelling with
        | nil => simp [isString] at token
        | cons c rest =>
          obtain ⟨rfl, _⟩ := List.cons.inj equal
          rcases token with string | ⟨_, bare⟩
          · cases object <;> simp [isString, opening] at string
          · have own := bare _ List.mem_cons_self
            cases object <;> exact absurd own (by decide)
    cases first with
    | scalar spelling =>
      cases second with
      | container object inner entries => exact absurd same.symm (apart firstFormed)
      | scalar other =>
        rw [Doc.print, Doc.print] at same
        cases firstFormed with
        | scalar _ token =>
        cases secondFormed with
        | scalar _ otherToken =>
        have quoted : ∀ {string bare : Text} {x y : Text}, isString string = true →
            (bare ≠ [] ∧ ∀ c ∈ bare, isBare c = true) → string ++ x ≠ bare ++ y := by
          intro string bare x y isString_ isBare_ equal
          obtain ⟨nonempty, all⟩ := isBare_
          cases string with
          | nil => cases isString_
          | cons c rest =>
            cases bare with
            | nil => exact nonempty rfl
            | cons d others =>
              rw [isString, Bool.and_eq_true, beq_iff_eq] at isString_
              obtain ⟨rfl, _⟩ := List.cons.inj equal
              have own := all _ List.mem_cons_self
              rw [isString_.1] at own
              exact absurd own (by decide)
        rcases token with string | bare
        · rcases otherToken with otherString | otherBare
          · obtain ⟨rfl, tails⟩ := isString_append_inj string otherString same
            exact ⟨rfl, tails⟩
          · exact absurd same (quoted string otherBare)
        · rcases otherToken with otherString | otherBare
          · exact absurd same.symm (quoted otherString bare)
          · obtain ⟨rfl, tails⟩ := append_inj_of_class bare.2 otherBare.2 firstEnds secondEnds same
            exact ⟨rfl, tails⟩
    | container object inner entries =>
      cases second with
      | scalar spelling => exact absurd same (apart secondFormed)
      | container other otherInner others =>
        rw [Doc.print, Doc.print, List.cons_append, List.cons_append] at same
        obtain ⟨opens, insides⟩ := List.cons.inj same
        have kind : object = other := by
          cases object <;> cases other <;> first | rfl | exact absurd opens (by decide)
        subst kind
        simp only [List.append_assoc, List.singleton_append] at insides
        have values : ∀ entry ∈ entries, ∀ other ∈ others, ∀ x y, Ends x → Ends y →
            entry.value.print ++ x = other.value.print ++ y →
              entry.value = other.value ∧ x = y := by
          intro entry member other otherMember x y xEnds yEnds equal
          cases firstFormed with
          | container _ _ _ _ _ _ formed =>
          cases secondFormed with
          | container _ _ _ _ _ _ otherFormed =>
          exact ih _ (length_value_lt object inner member) (formed entry member)
            (otherFormed other otherMember) xEnds yEnds equal rfl
        simp only [← List.append_assoc] at insides
        obtain ⟨rfl, rfl, tails⟩ := inside_append_inj firstFormed secondFormed values insides
        exact ⟨rfl, tails⟩

/-- A text with whitespace around a document is so in one way. -/
theorem document_unique {lead otherLead trail otherTrail : Text} {other : Doc}
    (leadBlank : Blank lead) (otherBlank : Blank otherLead) (trailBlank : Blank trail)
    (otherTrailBlank : Blank otherTrail) (formed : doc.WellFormed) (otherFormed : other.WellFormed)
    (same : lead ++ doc.print ++ trail = otherLead ++ other.print ++ otherTrail) :
    lead = otherLead ∧ doc = other ∧ trail = otherTrail := by
  rw [List.append_assoc, List.append_assoc] at same
  obtain ⟨leads, docs⟩ := blank_append_inj leadBlank otherBlank (formed.visible _)
    (otherFormed.visible _) same
  have ends : ∀ {blank : Text}, Blank blank → Ends blank := by
    intro blank isBlank_
    have none_ : Ends [] := fun c head => by cases head
    simpa using none_.blank_append isBlank_
  obtain ⟨doc_, trails⟩ := Doc.print_append_inj formed otherFormed (ends trailBlank)
    (ends otherTrailBlank) docs
  exact ⟨leads, doc_, trails⟩

end Unambiguity

end Codex.JsonDocument
