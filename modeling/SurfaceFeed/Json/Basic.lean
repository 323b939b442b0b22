import SurfaceFeed.Decimal.Shortest
import SurfaceFeed.Fields

/-!
# JSON documents

## Documents as they are written

A document keeps each number as it was read: an integer and a float never
equal each other, even when they stand for one number.  Fields of an object
that was read ascend; fields of an object that is about to be written stand in
the order in which they are written.
-/

namespace SurfaceFeed

inductive Json where
  | null
  | bool (b : Bool)
  | int (n : Int)
  | float (f : Float)
  | text (s : String)
  | array (items : List Json)
  | object (fields : List (String × Json))
  deriving Inhabited

namespace Json

/-! ## Equality -/

mutual

def same : Json -> Json -> Bool
  | null, null => true
  | bool a, bool b => a == b
  | int a, int b => a == b
  | float a, float b => a == b
  | text a, text b => a == b
  | array a, array b => sameItems a b
  | object a, object b => sameFields a b
  | _, _ => false

def sameItems : List Json -> List Json -> Bool
  | [], [] => true
  | a :: as, b :: bs => same a b && sameItems as bs
  | _, _ => false

def sameFields : List (String × Json) -> List (String × Json) -> Bool
  | [], [] => true
  | (ka, a) :: as, (kb, b) :: bs => ka == kb && same a b && sameFields as bs
  | _, _ => false

end

instance : BEq Json := ⟨same⟩

/-! ## Well-formed documents

A document that a reader produces has ascending fields and finite floats.
-/

mutual

def WellFormed : Json -> Prop
  | null | bool _ | int _ | text _ => True
  | float f => Decimal.isFinite f = true
  | array items => WellFormedItems items
  | object fields => Fields.Ascending fields ∧ WellFormedFields fields

def WellFormedItems : List Json -> Prop
  | [] => True
  | item :: items => WellFormed item ∧ WellFormedItems items

def WellFormedFields : List (String × Json) -> Prop
  | [] => True
  | (_, value) :: fields => WellFormed value ∧ WellFormedFields fields

end

/-- Strings, numbers and the like: what holds no other document. -/
def isScalar : Json -> Bool
  | array _ | object _ => false
  | _ => true

end Json
end SurfaceFeed
