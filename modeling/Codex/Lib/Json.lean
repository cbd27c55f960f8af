import Mathlib

/-!
# JSON values

Values compare without regard to the order of an object's fields, so an object is kept with its
fields sorted by key, and equality of values is equality of terms. Numbers are their text.
-/

namespace Codex

namespace Fields

variable {β : Type}

/-- `Map::get`. -/
def get (key : String) : List (String × β) → Option β
  | [] => none
  | field :: fields => if field.1 = key then some field.2 else get key fields

/-- `Map::insert`. -/
def insert (key : String) (value : β) : List (String × β) → List (String × β)
  | [] => [(key, value)]
  | field :: fields =>
      if key < field.1 then (key, value) :: field :: fields
      else if key = field.1 then (key, value) :: fields
      else field :: insert key value fields

/-- `Map::remove`. -/
def remove (key : String) (fields : List (String × β)) : List (String × β) :=
  fields.filter fun field => field.1 ≠ key

/-- The keys ascend. -/
def Sorted (fields : List (String × β)) : Prop := (fields.map Prod.fst).Pairwise (· < ·)

theorem sorted_nil : Sorted ([] : List (String × β)) := List.Pairwise.nil

theorem get_insert (key other : String) (value : β) (fields : List (String × β)) :
    get other (insert key value fields) = if other = key then some value else get other fields := by
  induction fields with
  | nil =>
    simp only [insert, get]
    grind
  | cons field fields ih =>
    simp only [insert]
    split
    · simp only [get]
      grind
    · split
      · simp only [get]
        grind
      · simp only [get, ih]
        grind

theorem get_remove (key other : String) (fields : List (String × β)) :
    get other (remove key fields) = if other = key then none else get other fields := by
  induction fields with
  | nil => simp [remove, get]
  | cons field fields ih =>
    unfold remove at ih ⊢
    rw [List.filter_cons]
    by_cases same : field.1 = key
    · simp only [same, ne_eq, not_true_eq_false, decide_false, Bool.false_eq_true, if_false, ih, get]
      grind
    · simp only [same, ne_eq, not_false_eq_true, decide_true, if_true, ih, get]
      grind

variable {fields : List (String × β)}

theorem get_eq_some_of_mem (sorted : Sorted fields) {key : String} {value : β}
    (member : (key, value) ∈ fields) : get key fields = some value := by
  induction fields with
  | nil => cases member
  | cons field fields ih =>
    obtain ⟨below, rest⟩ := List.pairwise_cons.mp sorted
    rw [get]
    rcases List.mem_cons.mp member with same | later
    · subst same
      exact if_pos rfl
    · have less := below key (List.mem_map_of_mem later)
      rw [if_neg (ne_of_lt less), ih rest later]

theorem mem_of_get_eq_some {key : String} {value : β}
    (found : get key fields = some value) : (key, value) ∈ fields := by
  induction fields with
  | nil => cases found
  | cons field fields ih =>
    rw [get] at found
    split at found
    · next same =>
      simp only [Option.some.injEq] at found
      subst same found
      exact List.mem_cons_self
    · exact List.mem_cons_of_mem _ (ih found)

theorem sorted_remove (sorted : Sorted fields) (key : String) :
    Sorted (remove key fields) :=
  List.Pairwise.sublist (List.filter_sublist.map _) sorted

theorem sorted_insert (sorted : Sorted fields) (key : String)
    (value : β) : Sorted (insert key value fields) := by
  induction fields with
  | nil => exact List.pairwise_singleton _ _
  | cons field fields ih =>
    obtain ⟨below, rest⟩ := List.pairwise_cons.mp sorted
    rw [insert]
    split
    · next less =>
      refine List.pairwise_cons.mpr ⟨?_, sorted⟩
      intro other member
      rcases List.mem_cons.mp member with same | later
      · exact same ▸ less
      · exact lt_trans less (below other later)
    split
    · next same =>
      subst same
      exact List.pairwise_cons.mpr ⟨below, rest⟩
    next notLess different =>
    refine List.pairwise_cons.mpr ⟨?_, ih rest⟩
    intro other member
    obtain ⟨⟨name, entry⟩, entered, isOther⟩ := List.mem_map.mp member
    dsimp only at isOther
    subst isOther
    have found := get_eq_some_of_mem (ih rest) entered
    rw [get_insert] at found
    split at found
    · next isKey =>
      rw [isKey]
      exact lt_of_le_of_ne (not_lt.mp notLess) (Ne.symm different)
    · exact below name (List.mem_map_of_mem (mem_of_get_eq_some found))

/-- Sorted fields are determined by what they map each key to. -/
theorem ext {left right : List (String × β)} (leftSorted : Sorted left)
    (rightSorted : Sorted right) (same : ∀ key, get key left = get key right) : left = right := by
  have nodup {fields : List (String × β)} (sorted : Sorted fields) : fields.Nodup :=
    List.Nodup.of_map Prod.fst (List.Pairwise.imp ne_of_lt sorted)
  have perm : left.Perm right := by
    rw [List.perm_ext_iff_of_nodup (nodup leftSorted) (nodup rightSorted)]
    rintro ⟨key, value⟩
    refine ⟨fun member => ?_, fun member => ?_⟩
    · exact mem_of_get_eq_some (same key ▸ get_eq_some_of_mem leftSorted member)
    · exact mem_of_get_eq_some ((same key).symm ▸ get_eq_some_of_mem rightSorted member)
  have ordered {fields : List (String × β)} (sorted : Sorted fields) :
      fields.Pairwise (fun first second => first.1 < second.1) := List.pairwise_map.mp sorted
  exact perm.eq_of_pairwise (fun first second _ _ less greater => absurd greater (lt_asymm less))
    (ordered leftSorted) (ordered rightSorted)

end Fields

/-- `serde_json::Value`. -/
inductive Json where
  | null
  | bool (value : Bool)
  | number (text : String)
  | string (text : String)
  | array (values : List Json)
  | object (fields : List (String × Json))

namespace Json

mutual

def decideEq : (left right : Json) → Decidable (left = right)
  | null, null => isTrue rfl
  | bool left, bool right => decidable_of_iff (left = right) (by rw [bool.injEq])
  | number left, number right => decidable_of_iff (left = right) (by rw [number.injEq])
  | string left, string right => decidable_of_iff (left = right) (by rw [string.injEq])
  | array left, array right =>
      have := decideEqValues left right
      decidable_of_iff (left = right) (by rw [array.injEq])
  | object left, object right =>
      have := decideEqFields left right
      decidable_of_iff (left = right) (by rw [object.injEq])
  | null, bool _ | null, number _ | null, string _ | null, array _ | null, object _
  | bool _, null | bool _, number _ | bool _, string _ | bool _, array _ | bool _, object _
  | number _, null | number _, bool _ | number _, string _ | number _, array _
  | number _, object _
  | string _, null | string _, bool _ | string _, number _ | string _, array _
  | string _, object _
  | array _, null | array _, bool _ | array _, number _ | array _, string _ | array _, object _
  | object _, null | object _, bool _ | object _, number _ | object _, string _
  | object _, array _ => isFalse (by intro same; cases same)

def decideEqValues : (left right : List Json) → Decidable (left = right)
  | [], [] => isTrue rfl
  | [], _ :: _ => isFalse (by intro same; cases same)
  | _ :: _, [] => isFalse (by intro same; cases same)
  | first :: left, second :: right =>
      have := decideEq first second
      have := decideEqValues left right
      decidable_of_iff (first = second ∧ left = right) (by rw [List.cons.injEq])

def decideEqFields : (left right : List (String × Json)) → Decidable (left = right)
  | [], [] => isTrue rfl
  | [], _ :: _ => isFalse (by intro same; cases same)
  | _ :: _, [] => isFalse (by intro same; cases same)
  | (firstKey, first) :: left, (secondKey, second) :: right =>
      have := decideEq first second
      have := decideEqFields left right
      decidable_of_iff ((firstKey = secondKey ∧ first = second) ∧ left = right)
        (by rw [List.cons.injEq, Prod.mk.injEq])

end

instance : DecidableEq Json := decideEq

/-- `Value::is_null`. -/
def isNull : Json → Bool
  | null => true
  | bool _ | number _ | string _ | array _ | object _ => false

/-- `Value::as_str`. -/
def asStr : Json → Option String
  | string text => some text
  | null | bool _ | number _ | array _ | object _ => none

/-- `Value::as_object`. -/
def asObject : Json → Option (List (String × Json))
  | object fields => some fields
  | null | bool _ | number _ | string _ | array _ => none

/-- `Value::get` with a key. -/
def get (value : Json) (key : String) : Option Json := value.asObject.bind (Fields.get key)

mutual

/-- The fields of every object are sorted. -/
def Canonical : Json → Prop
  | null | bool _ | number _ | string _ => True
  | array values => CanonicalValues values
  | object fields => Fields.Sorted fields ∧ CanonicalFields fields

def CanonicalValues : List Json → Prop
  | [] => True
  | value :: values => value.Canonical ∧ CanonicalValues values

def CanonicalFields : List (String × Json) → Prop
  | [] => True
  | field :: fields => field.2.Canonical ∧ CanonicalFields fields

end

theorem canonicalFields_iff {fields : List (String × Json)} :
    CanonicalFields fields ↔ ∀ field ∈ fields, field.2.Canonical := by
  induction fields with
  | nil => simp [CanonicalFields]
  | cons field fields ih => simp [CanonicalFields, ih]

theorem canonical_object_iff {fields : List (String × Json)} :
    (object fields).Canonical ↔
      Fields.Sorted fields ∧ ∀ key value, Fields.get key fields = some value → value.Canonical := by
  rw [Canonical, canonicalFields_iff]
  refine and_congr_right fun sorted => ⟨?_, ?_⟩
  · intro all key value found
    exact all _ (Fields.mem_of_get_eq_some found)
  · rintro all ⟨key, value⟩ member
    exact all key value (Fields.get_eq_some_of_mem sorted member)

/-- Induction over the nesting of objects. -/
theorem objectInduction {motive : Json → Prop}
    (leaf : ∀ value, value.asObject = none → motive value)
    (object : ∀ fields, (∀ field ∈ fields, motive field.2) → motive (.object fields)) :
    ∀ value, motive value
  | .null | .bool _ | .number _ | .string _ | .array _ => leaf _ rfl
  | .object fields => object fields fun field member => by
      have smaller : sizeOf field.2 < 1 + sizeOf fields := by
        have inside := List.sizeOf_lt_of_mem member
        obtain ⟨key, value⟩ := field
        simp only [Prod.mk.sizeOf_spec] at inside ⊢
        omega
      exact objectInduction leaf object field.2

end Json

/-- `serde_json::Value`: a value with its objects' fields sorted. -/
@[ext] structure Value where
  json : Json
  canonical : json.Canonical
  deriving DecidableEq

/-- `serde_json::Map`. -/
@[ext] structure Object where
  fields : List (String × Json)
  canonical : (Json.object fields).Canonical
  deriving DecidableEq

namespace Object

def empty : Object := ⟨[], by simp [Json.Canonical, Json.CanonicalFields, Fields.Sorted]⟩

def toValue (map : Object) : Value := ⟨.object map.fields, map.canonical⟩

def get (map : Object) (key : String) : Option Value :=
  match found : Fields.get key map.fields with
  | none => none
  | some value => some ⟨value, (Json.canonical_object_iff.mp map.canonical).2 key value found⟩

def insert (map : Object) (key : String) (value : Value) : Object :=
  ⟨Fields.insert key value.json map.fields, by
    obtain ⟨sorted, all⟩ := Json.canonical_object_iff.mp map.canonical
    refine Json.canonical_object_iff.mpr ⟨Fields.sorted_insert sorted key value.json, ?_⟩
    intro other entry found
    rw [Fields.get_insert] at found
    split at found
    · simp only [Option.some.injEq] at found
      exact found ▸ value.canonical
    · exact all other entry found⟩

theorem get_map_json (map : Object) (key : String) :
    (map.get key).map Value.json = Fields.get key map.fields := by
  unfold get
  split
  · next found => exact found.symm
  · next found => exact found.symm

end Object

namespace Value

def isNull (value : Value) : Bool := value.json.isNull

def asStr (value : Value) : Option String := value.json.asStr

def asObject : Value → Option Object
  | ⟨.object fields, canonical⟩ => some ⟨fields, canonical⟩
  | ⟨.null, _⟩ | ⟨.bool _, _⟩ | ⟨.number _, _⟩ | ⟨.string _, _⟩ | ⟨.array _, _⟩ => none

def get (value : Value) (key : String) : Option Value := value.asObject.bind (·.get key)

theorem get_map_json (value : Value) (key : String) :
    (value.get key).map Value.json = value.json.get key := by
  obtain ⟨json, canonical⟩ := value
  cases json with
  | object fields => exact Object.get_map_json ⟨fields, canonical⟩ key
  | null => rfl
  | bool value => rfl
  | number text => rfl
  | string text => rfl
  | array values => rfl

/-- `Value::String`. -/
def string (text : String) : Value := ⟨.string text, trivial⟩

end Value

end Codex
