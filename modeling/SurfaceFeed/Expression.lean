import SurfaceFeed.Value.Basic

/-!
# Reductions of a value

## Length, truth and sum

A reduction makes one value of the members of a list or an object.  Scalars have
no members: their length is zero, or the count of UTF-16 units for a text, their
truth is their own, and their sum is the number itself or zero.
-/

namespace SurfaceFeed

inductive Expression where
  | length
  | count
  | any
  | all
  | none
  | sum
  deriving DecidableEq, Repr

namespace Expression

def name : Expression -> String
  | length => "length"
  | count => "count"
  | any => "any"
  | all => "all"
  | none => "none"
  | sum => "sum"

def ofName? (name : String) : Option Expression :=
  match name with
  | "length" => some length
  | "count" => some count
  | "any" => some any
  | "all" => some all
  | "none" => some none
  | "sum" => some sum
  | _ => Option.none

def unknownMessage (name : String) : String :=
  "unknown expression '" ++ name ++ "'"

/-! ## Members -/

def members? : Value -> Option (List Value)
  | .array items => some items
  | .object fields => some (fields.map Prod.snd)
  | _ => Option.none

/-- The UTF-16 units of a text: two for a character beyond the basic plane. -/
def unitCount (text : String) : Nat :=
  text.toList.foldl (fun count c => count + if c.toNat < 0x10000 then 1 else 2) 0

def lengthOf : Value -> Nat
  | .array items => items.length
  | .object fields => fields.length
  | .text s => unitCount s
  | _ => 0

def anyTruthy (value : Value) : Bool :=
  match members? value with
  | some members => members.any Value.isTruthy
  | Option.none => value.isTruthy

/-- Nothing is not all. -/
def allTruthy (value : Value) : Bool :=
  match members? value with
  | some members => !members.isEmpty && members.all Value.isTruthy
  | Option.none => value.isTruthy

/-! ## Sums

The integer sum is kept while every member is an integer, or no number at all,
and no step leaves the 64 bits; the float sum runs beside it.
-/

structure Total where
  whole : Option Int64
  float : Float

namespace Total

def zero : Total := ⟨some 0, 0⟩

def checkedAdd (a b : Int64) : Option Int64 :=
  Value.int64? (a.toInt + b.toInt)

def add (total : Total) : Value -> Total
  | .int n =>
      ⟨total.whole.bind fun whole => checkedAdd whole n, total.float + Float.ofInt n.toInt⟩
  | .float f => ⟨Option.none, total.float + f⟩
  | _ => total

def value (total : Total) : Value :=
  match total.whole with
  | some n => .int n
  | Option.none => .float total.float

end Total

def sumOf (members : List Value) : Value :=
  (members.foldl Total.add Total.zero).value

/-! ## Evaluation -/

def evaluate (e : Expression) (value : Value) : Value :=
  match e with
  | length | count => .int (Int64.ofNat (lengthOf value))
  | any => .bool (anyTruthy value)
  | none => .bool (!anyTruthy value)
  | all => .bool (allTruthy value)
  | sum =>
      match members? value with
      | some members => sumOf members
      | Option.none => if value.isNumber then value else .int 0

/-- A name that is no reduction leaves the value as it is. -/
def evaluateNamed (name : String) (value : Value) : Value :=
  match ofName? name with
  | some e => evaluate e value
  | Option.none => value

end Expression
end SurfaceFeed
