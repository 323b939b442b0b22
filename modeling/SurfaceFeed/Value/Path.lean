import SurfaceFeed.Pointer
import SurfaceFeed.Value.Basic

/-!
# Reading and writing along a path

## Segments on objects and lists

A path is a list of segments.  On an object a segment names a field.  On a list
it is an index: decimal, without a sign and without leading zeros.

A write makes every value on its way a list or an object that has the segment.
It appends to a list at the segment `-` and at an index up to 4096 beyond the
last element, with nulls in the gap; any other segment that a list does not
have, and any scalar on the way, gives way to a new object.
-/

namespace SurfaceFeed
namespace Value

def largestGap : Nat := 4096

def isDecimalDigit (c : Char) : Bool :=
  '0' ≤ c && c ≤ '9'

def decimalValue (digits : List Char) : Nat :=
  digits.foldl (fun n c => n * 10 + (c.toNat - '0'.toNat)) 0

def indexOf? (segment : String) : Option Nat :=
  match segment.toList with
  | [] => none
  | ['0'] => some 0
  | '0' :: _ => none
  | digits => if digits.all isDecimalDigit then some (decimalValue digits) else none

/-- The element of a list of `length` elements that a write through `segment` goes to. -/
def writeIndex? (segment : String) (length : Nat) : Option Nat :=
  if segment = "-" then some length
  else (indexOf? segment).filter fun index => index ≤ length + largestGap

/-! ## Reading -/

def getAt : Value -> List String -> Option Value
  | value, [] => some value
  | object fields, segment :: rest =>
      match Fields.find? fields segment with
      | some child => getAt child rest
      | none => none
  | array items, segment :: rest =>
      match (indexOf? segment).bind fun index => items[index]? with
      | some child => getAt child rest
      | none => none
  | _, _ :: _ => none

def get (root : Value) (pointer : String) : Option Value :=
  match Pointer.parse pointer with
  | .ok p => getAt root p.segments
  | .error _ => none

/-! ## Writing -/

/-- Puts `value` at an index of a list, with nulls in the places before it that are missing. -/
def placeAt (items : List Value) (index : Nat) (value : Value) : List Value :=
  items.take index ++ List.replicate (index - items.length) null ++
    value :: items.drop (index + 1)

/-- The fields that a write finds at a value: none unless it is an object. -/
def fieldsOrNone : Option Value -> List (String × Value)
  | some (object fields) => fields
  | _ => []

/-- The list element that a write through `segment` goes to, if it meets a list that has it. -/
def listTarget? : Option Value -> String -> Option (List Value × Nat)
  | some (array items), segment =>
      (writeIndex? segment items.length).map fun index => (items, index)
  | _, _ => none

def put : Option Value -> List String -> Value -> Value
  | _, [], value => value
  | current, segment :: rest, value =>
      match listTarget? current segment with
      | some (items, index) =>
          array (placeAt items index (put items[index]? rest value))
      | none =>
          let fields := fieldsOrNone current
          object (Fields.insert fields segment
            (put (Fields.find? fields segment) rest value))

/-- At the root only an object can be written. -/
def setAt (root : Value) (path : List String) (value : Value) :
    Except PointerError Value :=
  match path with
  | [] => if value.isObject then .ok value else .error .rootNotObject
  | segment :: rest => .ok (put (some root) (segment :: rest) value)

def set (root : Value) (pointer : String) (value : Value) :
    Except PointerError Value := do
  let p ← Pointer.parse pointer
  setAt root p.segments value

/-! ## Removing -/

/-- The value without what stands at the path; none if nothing stands there. -/
def drop? : Value -> List String -> Option Value
  | _, [] => none
  | object fields, [segment] =>
      if (Fields.find? fields segment).isSome then
        some (object (Fields.erase fields segment))
      else none
  | object fields, segment :: rest =>
      match Fields.find? fields segment with
      | some child => (drop? child rest).map fun child =>
          object (Fields.insert fields segment child)
      | none => none
  | array items, [segment] =>
      match indexOf? segment with
      | some index =>
          if index < items.length then some (array (items.eraseIdx index)) else none
      | none => none
  | array items, segment :: rest =>
      match indexOf? segment with
      | some index =>
          match items[index]? with
          | some child => (drop? child rest).map fun child => array (items.set index child)
          | none => none
      | none => none
  | _, _ :: _ => none

/-- Removing the root leaves an empty object, removing what is missing changes nothing. -/
def removeAt (root : Value) (path : List String) : Value :=
  if path.isEmpty then emptyObject else (drop? root path).getD root

def remove (root : Value) (pointer : String) : Except PointerError Value := do
  let p ← Pointer.parse pointer
  .ok (removeAt root p.segments)

end Value
end SurfaceFeed
