import SurfaceFeed.Proofs.Decimal
import SurfaceFeed.Proofs.Fields

/-!
# Values and their documents

## Documents as data

A document that is kept as data has ascending fields, finite floats, and
integers of 64 bits.  A value that comes from such a document is written as a
document again without a loss, and what is read from it is the same value.
-/

namespace SurfaceFeed
namespace Json

mutual

/-- Every integer has 64 bits, with a sign or without one. -/
def Bounded : Json -> Prop
  | null | bool _ | float _ | text _ => True
  | int n => -(2 ^ 63) ≤ n ∧ n < 2 ^ 64
  | array items => BoundedItems items
  | object fields => BoundedFields fields

def BoundedItems : List Json -> Prop
  | [] => True
  | item :: items => Bounded item ∧ BoundedItems items

def BoundedFields : List (String × Json) -> Prop
  | [] => True
  | (_, value) :: fields => Bounded value ∧ BoundedFields fields

end

structure Stored (json : Json) : Prop where
  wellFormed : json.WellFormed
  bounded : json.Bounded

theorem Stored.of_mem_items {items : List Json} (h : Stored (.array items)) :
    forall item, item ∈ items -> item.Stored := by
  rcases h with ⟨hformed, hbounded⟩
  have hall : forall items, WellFormedItems items -> BoundedItems items ->
      forall item, item ∈ items -> item.Stored := by
    intro items hformed hbounded item hmem
    induction items with
    | nil => cases hmem
    | cons first items ih =>
        rcases List.mem_cons.1 hmem with rfl | hmem
        · exact ⟨hformed.1, hbounded.1⟩
        · exact ih hformed.2 hbounded.2 hmem
  exact hall items hformed hbounded

theorem Stored.of_mem_fields {fields : List (String × Json)} (h : Stored (.object fields)) :
    forall field, field ∈ fields -> field.2.Stored := by
  rcases h with ⟨⟨_, hformed⟩, hbounded⟩
  have hall : forall fields, WellFormedFields fields -> BoundedFields fields ->
      forall field, field ∈ fields -> field.2.Stored := by
    intro fields hformed hbounded field hmem
    induction fields with
    | nil => cases hmem
    | cons first fields ih =>
        rcases List.mem_cons.1 hmem with rfl | hmem
        · exact ⟨hformed.1, hbounded.1⟩
        · exact ih hformed.2 hbounded.2 hmem
  exact hall fields hformed hbounded

/-! ## Sorted documents -/

mutual

/-- The document as data: with the fields of each object in ascending order. -/
def sorted : Json -> Json
  | array items => array (sortedItems items)
  | object fields => object (Fields.ofList (sortedFields fields))
  | null => null
  | bool b => bool b
  | int n => int n
  | float f => float f
  | text s => text s

def sortedItems : List Json -> List Json
  | [] => []
  | item :: items => sorted item :: sortedItems items

def sortedFields : List (String × Json) -> List (String × Json)
  | [] => []
  | (name, value) :: fields => (name, sorted value) :: sortedFields fields

end

mutual

theorem WellFormed.sorted_eq {json : Json} (h : json.WellFormed) : json.sorted = json := by
  cases json with
  | array items => rw [sorted, sortedItems_of_wellFormed h]
  | object fields => rw [sorted, sortedFields_of_wellFormed h.2, h.1.ofList_eq]
  | null => rfl
  | bool b => rfl
  | int n => rfl
  | float f => rfl
  | text s => rfl

theorem sortedItems_of_wellFormed {items : List Json} (h : WellFormedItems items) :
    sortedItems items = items := by
  cases items with
  | nil => rfl
  | cons item items => rw [sortedItems, h.1.sorted_eq, sortedItems_of_wellFormed h.2]

theorem sortedFields_of_wellFormed {fields : List (String × Json)} (h : WellFormedFields fields) :
    sortedFields fields = fields := by
  cases fields with
  | nil => rfl
  | cons field fields => rw [sortedFields, h.1.sorted_eq, sortedFields_of_wellFormed h.2]

end

@[simp] theorem sortedFields_append (front back : List (String × Json)) :
    sortedFields (front ++ back) = sortedFields front ++ sortedFields back := by
  induction front with
  | nil => rfl
  | cons field front ih => rw [List.cons_append, sortedFields, sortedFields, ih, List.cons_append]

end Json

namespace Value

/-! ## Values of stored documents -/

mutual

def Finite : Value -> Prop
  | null | bool _ | int _ | text _ => True
  | float f => Decimal.isFinite f = true
  | array items => FiniteItems items
  | object fields => FiniteFields fields

def FiniteItems : List Value -> Prop
  | [] => True
  | item :: items => Finite item ∧ FiniteItems items

def FiniteFields : List (String × Value) -> Prop
  | [] => True
  | (_, value) :: fields => Finite value ∧ FiniteFields fields

end

theorem finite_ofInt {n : Int} (h : -(2 ^ 63) ≤ n ∧ n < 2 ^ 64) : (ofInt n).Finite := by
  unfold ofInt int64?
  by_cases hfits : smallestInt ≤ n ∧ n ≤ largestInt
  · rw [if_pos hfits]
    exact True.intro
  · rw [if_neg hfits]
    have hlarge : 2 ^ 63 ≤ n := by
      have hsmallest : smallestInt = -(2 ^ 63) := rfl
      have hlargest : largestInt = 2 ^ 63 - 1 := rfl
      rw [hsmallest, hlargest] at hfits
      omega
    exact Decimal.isFinite_ofInt hlarge h.2

mutual

theorem finite_ofJson {json : Json} (hformed : json.WellFormed) (hbounded : json.Bounded) :
    (ofJson json).Finite := by
  cases json with
  | null => exact True.intro
  | bool b => exact True.intro
  | int n => exact finite_ofInt hbounded
  | float f => exact hformed
  | text s => exact True.intro
  | array items => exact finiteItems_ofJson hformed hbounded
  | object fields => exact finiteFields_ofJson hformed.2 hbounded

theorem finiteItems_ofJson {items : List Json} (hformed : Json.WellFormedItems items)
    (hbounded : Json.BoundedItems items) : FiniteItems (ofJsonItems items) := by
  cases items with
  | nil => exact True.intro
  | cons item items =>
      exact ⟨finite_ofJson hformed.1 hbounded.1, finiteItems_ofJson hformed.2 hbounded.2⟩

theorem finiteFields_ofJson {fields : List (String × Json)}
    (hformed : Json.WellFormedFields fields) (hbounded : Json.BoundedFields fields) :
    FiniteFields (ofJsonFields fields) := by
  cases fields with
  | nil => exact True.intro
  | cons field fields =>
      exact ⟨finite_ofJson hformed.1 hbounded.1, finiteFields_ofJson hformed.2 hbounded.2⟩

end

@[simp] theorem ofJsonFields_eq_map (fields : List (String × Json)) :
    ofJsonFields fields = fields.map fun field => (field.1, ofJson field.2) := by
  induction fields with
  | nil => rfl
  | cons field fields ih => rw [ofJsonFields, ih, List.map_cons]

@[simp] theorem toJsonFields_eq_map (fields : List (String × Value)) :
    toJsonFields fields = fields.map fun field => (field.1, toJson field.2) := by
  induction fields with
  | nil => rfl
  | cons field fields ih => rw [toJsonFields, ih, List.map_cons]

mutual

theorem wellFormed_ofJson {json : Json} (h : json.WellFormed) : (ofJson json).WellFormed := by
  cases json with
  | null => exact True.intro
  | bool b => exact True.intro
  | int n =>
      unfold ofJson ofInt
      split <;> exact True.intro
  | float f => exact True.intro
  | text s => exact True.intro
  | array items => exact wellFormedItems_ofJson h
  | object fields =>
      refine ⟨?_, wellFormedFields_ofJson h.2⟩
      rw [ofJsonFields_eq_map]
      exact List.Pairwise.map _ (fun _ _ hless => hless) h.1

theorem wellFormedItems_ofJson {items : List Json} (h : Json.WellFormedItems items) :
    WellFormedItems (ofJsonItems items) := by
  cases items with
  | nil => exact True.intro
  | cons item items => exact ⟨wellFormed_ofJson h.1, wellFormedItems_ofJson h.2⟩

theorem wellFormedFields_ofJson {fields : List (String × Json)}
    (h : Json.WellFormedFields fields) : WellFormedFields (ofJsonFields fields) := by
  cases fields with
  | nil => exact True.intro
  | cons field fields => exact ⟨wellFormed_ofJson h.1, wellFormedFields_ofJson h.2⟩

end

/-! ## Documents of values -/

theorem ofInt_toInt (n : Int64) : ofInt n.toInt = int n := by
  have hfits : smallestInt ≤ n.toInt ∧ n.toInt ≤ largestInt :=
    ⟨n.minValue_le_toInt, n.toInt_le⟩
  unfold ofInt int64?
  rw [if_pos hfits, Int64.ofInt_toInt]

mutual

theorem ofJson_toJson {value : Value} (h : value.Finite) : ofJson value.toJson = value := by
  cases value with
  | null => rfl
  | bool b => rfl
  | int n => exact ofInt_toInt n
  | float f =>
      have hfinite : Decimal.isFinite f = true := h
      rw [toJson, floatToJson, if_pos hfinite, ofJson]
  | text s => rfl
  | array items => rw [toJson, ofJson, ofJsonItems_toJsonItems h]
  | object fields => rw [toJson, ofJson, ofJsonFields_toJsonFields h]

theorem ofJsonItems_toJsonItems {items : List Value} (h : FiniteItems items) :
    ofJsonItems (toJsonItems items) = items := by
  cases items with
  | nil => rfl
  | cons item items =>
      rw [toJsonItems, ofJsonItems, ofJson_toJson h.1, ofJsonItems_toJsonItems h.2]

theorem ofJsonFields_toJsonFields {fields : List (String × Value)} (h : FiniteFields fields) :
    ofJsonFields (toJsonFields fields) = fields := by
  cases fields with
  | nil => rfl
  | cons field fields =>
      rw [toJsonFields, ofJsonFields, ofJson_toJson h.1, ofJsonFields_toJsonFields h.2]

end

mutual

theorem wellFormed_toJson {value : Value} (hformed : value.WellFormed) (hfinite : value.Finite) :
    value.toJson.WellFormed := by
  cases value with
  | null => exact True.intro
  | bool b => exact True.intro
  | int n => exact True.intro
  | float f =>
      have hf : Decimal.isFinite f = true := hfinite
      rw [toJson, floatToJson, if_pos hf]
      exact hf
  | text s => exact True.intro
  | array items => exact wellFormedItems_toJson hformed hfinite
  | object fields =>
      refine ⟨?_, wellFormedFields_toJson hformed.2 hfinite⟩
      rw [toJsonFields_eq_map]
      exact List.Pairwise.map _ (fun _ _ hless => hless) hformed.1

theorem wellFormedItems_toJson {items : List Value} (hformed : WellFormedItems items)
    (hfinite : FiniteItems items) : Json.WellFormedItems (toJsonItems items) := by
  cases items with
  | nil => exact True.intro
  | cons item items =>
      exact ⟨wellFormed_toJson hformed.1 hfinite.1, wellFormedItems_toJson hformed.2 hfinite.2⟩

theorem wellFormedFields_toJson {fields : List (String × Value)}
    (hformed : WellFormedFields fields) (hfinite : FiniteFields fields) :
    Json.WellFormedFields (toJsonFields fields) := by
  cases fields with
  | nil => exact True.intro
  | cons field fields =>
      exact ⟨wellFormed_toJson hformed.1 hfinite.1, wellFormedFields_toJson hformed.2 hfinite.2⟩

end

end Value
end SurfaceFeed
