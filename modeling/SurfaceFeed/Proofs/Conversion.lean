import SurfaceFeed.Proofs.Path
import SurfaceFeed.Proofs.Value
import SurfaceFeed.Proofs.Nearest

/-!
# Conversion of values and documents

## What a conversion and its reverse change

A document has no infinite or undefined number, and a value has no integer beyond
64 bits with a sign.  These are all that a conversion cannot keep: such a float
becomes null, and such an integer the nearest float.  Whatever else a value or a
document holds stays as it is at its place.
-/

namespace SurfaceFeed
namespace Value

/-! ## Values without infinite and undefined numbers -/

mutual

/-- The value with null for each float that is infinite or undefined. -/
def blanked : Value -> Value
  | float f => if Decimal.isFinite f then float f else null
  | array items => array (blankedItems items)
  | object fields => object (blankedFields fields)
  | null => null
  | bool b => bool b
  | int n => int n
  | text s => text s

def blankedItems : List Value -> List Value
  | [] => []
  | item :: items => blanked item :: blankedItems items

def blankedFields : List (String × Value) -> List (String × Value)
  | [] => []
  | (name, value) :: fields => (name, blanked value) :: blankedFields fields

end

@[simp] theorem blankedItems_eq_map (items : List Value) : blankedItems items = items.map blanked := by
  induction items with
  | nil => rfl
  | cons item items ih => rw [blankedItems, ih, List.map_cons]

theorem find?_blankedFields (fields : List (String × Value)) (name : String) :
    Fields.find? (blankedFields fields) name = (Fields.find? fields name).map blanked := by
  induction fields with
  | nil => rfl
  | cons field fields ih =>
      rw [blankedFields, Fields.find?_cons, Fields.find?_cons, ih]
      split <;> rfl

theorem child?_blanked (value : Value) (segment : String) :
    value.blanked.child? segment = (value.child? segment).map blanked := by
  cases value with
  | null => rfl
  | bool b => rfl
  | int n => rfl
  | float f =>
      rw [blanked]
      split <;> rfl
  | text s => rfl
  | array items =>
      rw [blanked, child?, child?, blankedItems_eq_map, Option.map_bind]
      simp only [List.getElem?_map]
      rfl
  | object fields => rw [blanked, child?, child?, find?_blankedFields]

/-- What stands at a path of the blanked value is the blanked value that stands there. -/
theorem getAt_blanked (value : Value) (path : List String) :
    value.blanked.getAt path = (value.getAt path).map blanked := by
  induction path generalizing value with
  | nil =>
      rw [getAt_nil, getAt_nil]
      rfl
  | cons segment path ih =>
      rw [getAt_cons, getAt_cons, child?_blanked]
      cases value.child? segment with
      | none => rfl
      | some child => exact ih child

mutual

theorem blanked_eq_self_iff (value : Value) : value.blanked = value ↔ value.Finite := by
  cases value with
  | null => exact iff_of_true rfl trivial
  | bool b => exact iff_of_true rfl trivial
  | int n => exact iff_of_true rfl trivial
  | float f =>
      rw [blanked, Finite]
      split
      · next hfinite => exact iff_of_true rfl hfinite
      · next hfinite => exact iff_of_false Value.noConfusion hfinite
  | text s => exact iff_of_true rfl trivial
  | array items => rw [blanked, Finite, array.injEq, blankedItems_eq_self_iff items]
  | object fields => rw [blanked, Finite, object.injEq, blankedFields_eq_self_iff fields]

theorem blankedItems_eq_self_iff (items : List Value) :
    blankedItems items = items ↔ FiniteItems items := by
  cases items with
  | nil => exact iff_of_true rfl trivial
  | cons item items =>
      rw [blankedItems, FiniteItems, List.cons.injEq, blanked_eq_self_iff item,
        blankedItems_eq_self_iff items]

theorem blankedFields_eq_self_iff (fields : List (String × Value)) :
    blankedFields fields = fields ↔ FiniteFields fields := by
  cases fields with
  | nil => exact iff_of_true rfl trivial
  | cons field fields =>
      simp [blankedFields, FiniteFields, Prod.ext_iff, blanked_eq_self_iff field.2,
        blankedFields_eq_self_iff fields]

end

/-! ## From values to documents and back -/

theorem ofJson_floatToJson (f : Float) : ofJson (floatToJson f) = (float f).blanked := by
  rw [floatToJson, blanked]
  split <;> rfl

mutual

theorem ofJson_toJson_eq_blanked (value : Value) : ofJson value.toJson = value.blanked := by
  cases value with
  | null => rfl
  | bool b => rfl
  | int n => exact ofInt_toInt n
  | float f => exact ofJson_floatToJson f
  | text s => rfl
  | array items => rw [toJson, ofJson, blanked, ofJsonItems_toJsonItems_eq_blanked items]
  | object fields => rw [toJson, ofJson, blanked, ofJsonFields_toJsonFields_eq_blanked fields]

theorem ofJsonItems_toJsonItems_eq_blanked (items : List Value) :
    ofJsonItems (toJsonItems items) = blankedItems items := by
  cases items with
  | nil => rfl
  | cons item items =>
      rw [toJsonItems, ofJsonItems, blankedItems, ofJson_toJson_eq_blanked item,
        ofJsonItems_toJsonItems_eq_blanked items]

theorem ofJsonFields_toJsonFields_eq_blanked (fields : List (String × Value)) :
    ofJsonFields (toJsonFields fields) = blankedFields fields := by
  cases fields with
  | nil => rfl
  | cons field fields =>
      rw [toJsonFields, ofJsonFields, blankedFields, ofJson_toJson_eq_blanked field.2,
        ofJsonFields_toJsonFields_eq_blanked fields]

end

end Value

/-! ## From documents to values and back -/

namespace Json

mutual

/-- The document with a float for each integer that is too large for a value. -/
def rounded : Json -> Json
  | int n => if n ≤ Value.largestInt then int n else float (Float.ofInt n)
  | array items => array (roundedItems items)
  | object fields => object (roundedFields fields)
  | null => null
  | bool b => bool b
  | float f => float f
  | text s => text s

def roundedItems : List Json -> List Json
  | [] => []
  | item :: items => rounded item :: roundedItems items

def roundedFields : List (String × Json) -> List (String × Json)
  | [] => []
  | (name, value) :: fields => (name, rounded value) :: roundedFields fields

end

end Json

namespace Value

open Rounding

theorem isNearest_ofInt {n : Int} (hlarge : largestInt < n) (hsmall : n < 2 ^ 64) :
    IsNearest (Float.ofInt n) n := by
  cases n with
  | ofNat n =>
      have hbound : (n : Int) < 2 ^ 64 := hsmall
      exact isNearest_ofNat (by omega)
  | negSucc n => exact absurd (hlarge.trans (Int.negSucc_lt_zero n)) (by decide)

theorem toJson_ofInt {n : Int} (h : -(2 ^ 63) ≤ n ∧ n < 2 ^ 64) :
    (ofInt n).toJson = (Json.int n).rounded := by
  unfold ofInt int64?
  rw [Json.rounded]
  by_cases hfits : n ≤ largestInt
  · rw [if_pos hfits, if_pos ⟨h.1, hfits⟩]
    show Json.int (Int64.ofInt n).toInt = _
    rw [Int64.toInt_ofInt_of_le h.1 (Int.lt_add_one_of_le hfits)]
  · rw [if_neg hfits, if_neg fun hboth => hfits hboth.2]
    show floatToJson (Float.ofInt n) = _
    rw [floatToJson, if_pos (isNearest_ofInt (not_le.1 hfits) h.2).isFinite]

mutual

theorem toJson_ofJson {json : Json} (hformed : json.WellFormed) (hbounded : json.Bounded) :
    (ofJson json).toJson = json.rounded := by
  cases json with
  | null => rfl
  | bool b => rfl
  | int n => exact toJson_ofInt hbounded
  | float f => exact if_pos hformed
  | text s => rfl
  | array items => rw [ofJson, toJson, Json.rounded, toJsonItems_ofJsonItems hformed hbounded]
  | object fields =>
      rw [ofJson, toJson, Json.rounded, toJsonFields_ofJsonFields hformed.2 hbounded]

theorem toJsonItems_ofJsonItems {items : List Json} (hformed : Json.WellFormedItems items)
    (hbounded : Json.BoundedItems items) :
    toJsonItems (ofJsonItems items) = Json.roundedItems items := by
  cases items with
  | nil => rfl
  | cons item items =>
      rw [ofJsonItems, toJsonItems, Json.roundedItems, toJson_ofJson hformed.1 hbounded.1,
        toJsonItems_ofJsonItems hformed.2 hbounded.2]

theorem toJsonFields_ofJsonFields {fields : List (String × Json)}
    (hformed : Json.WellFormedFields fields) (hbounded : Json.BoundedFields fields) :
    toJsonFields (ofJsonFields fields) = Json.roundedFields fields := by
  cases fields with
  | nil => rfl
  | cons field fields =>
      rw [ofJsonFields, toJsonFields, Json.roundedFields, toJson_ofJson hformed.1 hbounded.1,
        toJsonFields_ofJsonFields hformed.2 hbounded.2]

end

@[simp] theorem ofJsonItems_eq_map (items : List Json) : ofJsonItems items = items.map ofJson := by
  induction items with
  | nil => rfl
  | cons item items ih => rw [ofJsonItems, ih, List.map_cons]

@[simp] theorem toJsonItems_eq_map (items : List Value) : toJsonItems items = items.map toJson := by
  induction items with
  | nil => rfl
  | cons item items ih => rw [toJsonItems, ih, List.map_cons]

theorem toJson_ofJson_array (items : List Json) :
    (ofJson (.array items)).toJson = .array (items.map fun item => (ofJson item).toJson) := by
  simp [ofJson, toJson, Function.comp_def]

theorem toJson_ofJson_object (fields : List (String × Json)) :
    (ofJson (.object fields)).toJson =
      .object (fields.map fun field => (field.1, (ofJson field.2).toJson)) := by
  simp [ofJson, toJson, Function.comp_def]

/-! ## Both ways -/

/--
A value comes back from its document with null for each infinite or undefined float, and is the
same at every path apart from that.  A stored document comes back from its value with the nearest
float for each integer that is too large for a value, and with the items and the names of its
lists and objects in their order.
-/
theorem conversions_round_trip :
    (forall value : Value, value.Finite -> ofJson value.toJson = value) ∧
    (forall value : Value, ofJson value.toJson = value.blanked ∧
      (ofJson value.toJson = value ↔ value.Finite)) ∧
    (forall (value : Value) (path : List String),
      (ofJson value.toJson).getAt path = (value.getAt path).map blanked) ∧
    (forall json : Json, json.Stored -> (ofJson json).toJson = json.rounded) ∧
    (forall n : Int, largestInt < n -> n < 2 ^ 64 -> IsNearest (Float.ofInt n) n) ∧
    (forall items : List Json,
      (ofJson (.array items)).toJson = .array (items.map fun item => (ofJson item).toJson)) ∧
    (forall fields : List (String × Json),
      (ofJson (.object fields)).toJson =
        .object (fields.map fun field => (field.1, (ofJson field.2).toJson))) := by
  refine ⟨?_, ?_, ?_, ?_, ?_, toJson_ofJson_array, toJson_ofJson_object⟩
  · intro value hfinite
    exact ofJson_toJson hfinite
  · intro value
    rw [ofJson_toJson_eq_blanked]
    exact ⟨rfl, blanked_eq_self_iff value⟩
  · intro value path
    rw [ofJson_toJson_eq_blanked]
    exact getAt_blanked value path
  · intro json hstored
    exact toJson_ofJson hstored.wellFormed hstored.bounded
  · intro n hlarge hsmall
    exact isNearest_ofInt hlarge hsmall

theorem conversions_round_trip_of_limits :
    let value : Value := object [("a", array [int 3, float 2, float (-0)])]
    let unbounded : Value := array [text "x", float (1 / 0), int 7]
    let json : Json := .object
      [("a", .array [.int 18446744073709551615, .int 9223372036854775807]), ("b", .float 2)]
    (value.Finite ∧ ofJson value.toJson = value) ∧
      (¬ unbounded.Finite ∧ ofJson unbounded.toJson = array [text "x", null, int 7]) ∧
      (json.Stored ∧ (ofJson json).toJson = .object
        [("a", .array [.float (Float.ofInt 18446744073709551615), .int 9223372036854775807]),
          ("b", .float 2)]) ∧
      IsNearest (Float.ofInt 18446744073709551615) 18446744073709551615 := by
  intro value unbounded json
  rcases conversions_round_trip with ⟨hfinite, hblanked, _, hrounded, hnearest, _, _⟩
  have htwo : Decimal.isFinite 2 = true := by decide +kernel
  have hzero : Decimal.isFinite (-0) = true := by decide +kernel
  have hvalue : value.Finite := ⟨⟨trivial, htwo, hzero, trivial⟩, trivial⟩
  have hinfinite : Decimal.isFinite (1 / 0) = false := by decide +kernel
  have hcleared : unbounded.blanked = array [text "x", null, int 7] := by
    rw [blanked, blankedItems, blankedItems, blanked, blanked, hinfinite]
    rfl
  have hstored : json.Stored := by
    refine ⟨⟨?_, ⟨trivial, trivial, trivial⟩, htwo, trivial⟩, ?_⟩
    · exact List.pairwise_pair.2 (by decide)
    · exact ⟨⟨⟨by decide, by decide⟩, ⟨by decide, by decide⟩, trivial⟩, trivial, trivial⟩
  refine ⟨⟨hvalue, hfinite value hvalue⟩, ⟨?_, ?_⟩, ⟨hstored, hrounded json hstored⟩, ?_⟩
  · rintro ⟨_, hbroken, _⟩
    exact Bool.false_ne_true (hinfinite.symm.trans hbroken)
  · rw [(hblanked unbounded).1, hcleared]
  · exact hnearest _ (by decide) (by decide)

end Value
end SurfaceFeed
