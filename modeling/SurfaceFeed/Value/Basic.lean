import SurfaceFeed.Fields
import SurfaceFeed.Json.Printer

/-!
# Data values

## The values that a data model holds

A value is a JSON document seen as data: integers are 64 bits wide, every other
number is a float, and numbers are compared by what they stand for.  The fields
of an object ascend.

This module also holds the two readings of a single value that the rest of the
library uses: whether it counts as true, and how it is shown inside a text.
-/

namespace SurfaceFeed

inductive Value where
  | null
  | bool (b : Bool)
  | int (n : Int64)
  | float (f : Float)
  | text (s : String)
  | array (items : List Value)
  | object (fields : List (String × Value))
  deriving Inhabited

namespace Value

/-! ## Parts of a value -/

def emptyObject : Value :=
  object []

/-- Null, zero, the undefined number and the empty text are false, as false itself is. -/
def isTruthy : Value -> Bool
  | null => false
  | bool b => b
  | int n => n != 0
  | float f => f != 0 && f == f
  | text s => s != ""
  | array _ | object _ => true

def isNull : Value -> Bool
  | null => true
  | _ => false

def isNumber : Value -> Bool
  | int _ | float _ => true
  | _ => false

def isObject : Value -> Bool
  | object _ => true
  | _ => false

/-- The number that a value stands for; texts and truth values stand for none. -/
def number? : Value -> Option Float
  | int n => some (Float.ofInt n.toInt)
  | float f => some f
  | _ => none

def text? : Value -> Option String
  | text s => some s
  | _ => none

def items? : Value -> Option (List Value)
  | array items => some items
  | _ => none

def fields? : Value -> Option (List (String × Value))
  | object fields => some fields
  | _ => none

def field? (value : Value) (name : String) : Option Value :=
  value.fields?.bind fun fields => Fields.find? fields name

/-! ## Equality

Two integers are equal when they are the same; an integer and a float, or two
floats, are equal when their floats are.
-/

mutual

def same : Value -> Value -> Bool
  | null, null => true
  | bool a, bool b => a == b
  | int a, int b => a == b
  | int a, float b => Float.ofInt a.toInt == b
  | float a, int b => a == Float.ofInt b.toInt
  | float a, float b => a == b
  | text a, text b => a == b
  | array a, array b => sameItems a b
  | object a, object b => sameFields a b
  | _, _ => false

def sameItems : List Value -> List Value -> Bool
  | [], [] => true
  | a :: as, b :: bs => same a b && sameItems as bs
  | _, _ => false

def sameFields : List (String × Value) -> List (String × Value) -> Bool
  | [], [] => true
  | (ka, a) :: as, (kb, b) :: bs => ka == kb && same a b && sameFields as bs
  | _, _ => false

end

instance : BEq Value := ⟨same⟩

/-! ## Well-formed values

The fields of a value that was read from a document ascend, at every depth.
-/

mutual

def WellFormed : Value -> Prop
  | null | bool _ | int _ | float _ | text _ => True
  | array items => WellFormedItems items
  | object fields => Fields.Ascending fields ∧ WellFormedFields fields

def WellFormedItems : List Value -> Prop
  | [] => True
  | item :: items => WellFormed item ∧ WellFormedItems items

def WellFormedFields : List (String × Value) -> Prop
  | [] => True
  | (_, value) :: fields => WellFormed value ∧ WellFormedFields fields

end

/-! ## Documents and values -/

def smallestInt : Int := Int64.minValue.toInt

def largestInt : Int := Int64.maxValue.toInt

/-- The 64-bit integer of a number, if there is one. -/
def int64? (n : Int) : Option Int64 :=
  if smallestInt ≤ n ∧ n ≤ largestInt then some (Int64.ofInt n) else none

/-- An integer that does not fit becomes a float. -/
def ofInt (n : Int) : Value :=
  match int64? n with
  | some n => int n
  | none => float (Float.ofInt n)

mutual

def ofJson : Json -> Value
  | .null => null
  | .bool b => bool b
  | .int n => ofInt n
  | .float f => float f
  | .text s => text s
  | .array items => array (ofJsonItems items)
  | .object fields => object (ofJsonFields fields)

def ofJsonItems : List Json -> List Value
  | [] => []
  | item :: items => ofJson item :: ofJsonItems items

def ofJsonFields : List (String × Json) -> List (String × Value)
  | [] => []
  | (name, value) :: fields => (name, ofJson value) :: ofJsonFields fields

end

/-- A document has no infinite or undefined number. -/
def floatToJson (f : Float) : Json :=
  if Decimal.isFinite f then .float f else .null

mutual

def toJson : Value -> Json
  | null => .null
  | bool b => .bool b
  | int n => .int n.toInt
  | float f => floatToJson f
  | text s => .text s
  | array items => .array (toJsonItems items)
  | object fields => .object (toJsonFields fields)

def toJsonItems : List Value -> List Json
  | [] => []
  | item :: items => toJson item :: toJsonItems items

def toJsonFields : List (String × Value) -> List (String × Json)
  | [] => []
  | (name, value) :: fields => (name, toJson value) :: toJsonFields fields

end

/-! ## Values inside a text -/

/-- Texts stand for themselves, null for nothing, and lists and objects for their documents. -/
def display : Value -> String
  | null => ""
  | bool b => Json.writeBool b
  | int n => Json.writeInt n.toInt
  | float f => Decimal.displayLayout.write f
  | text s => s
  | array items => (array items).toJson.compact
  | object fields => (object fields).toJson.compact

end Value
end SurfaceFeed
