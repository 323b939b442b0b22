import SurfaceFeed.Expression
import SurfaceFeed.Model

/-!
# Visibility and content

## Values that a component takes from the model

A component names a path in the model, and may name a reduction for what stands
there.  A path that leads nowhere has no value, which is not null; a reduction
of it reduces null.

A condition compares the value with an operand.  Of several operators only the
first counts, in the order of the fields below; without one the value itself is
the condition.
-/

namespace SurfaceFeed

structure Condition where
  path : String
  expr : Option String
  eq : Option Value
  neq : Option Value
  gt : Option Value
  gte : Option Value
  lt : Option Value
  lte : Option Value
  deriving Inhabited

/-- What a component is visible by: a path or a condition on one. -/
inductive VisibleIf where
  | path (pointer : String)
  | condition (c : Condition)
  deriving Inhabited

structure Content where
  path : String
  expr : Option String
  deriving DecidableEq, Repr, Inhabited

/-- The value at a path after the reduction, if there is one. -/
def Model.resolve (model : Model) (path : String) (expr : Option String) : Option Value :=
  match expr with
  | some name => some (Expression.evaluateNamed name ((model.get path).getD .null))
  | none => model.get path

/-- Equality of what may be missing. -/
def sameOption {α : Type} (same : α -> α -> Bool) : Option α -> Option α -> Bool
  | none, none => true
  | some a, some b => same a b
  | _, _ => false

namespace Condition

def truthy (path : String) : Condition :=
  ⟨path, none, none, none, none, none, none, none⟩

/-- Only numbers stand in an order. -/
def compare (order : Float -> Float -> Bool) (value : Option Value) (operand : Value) :
    Bool :=
  match value.bind Value.number?, operand.number? with
  | some a, some b => order a b
  | _, _ => false

def equals (value : Option Value) (operand : Value) : Bool :=
  match value with
  | some value => value == operand
  | none => false

def isTruthy (value : Option Value) : Bool :=
  match value with
  | some value => value.isTruthy
  | none => false

/-- What the first operator that is present says about a value. -/
def test (c : Condition) (value : Option Value) : Bool :=
  match c.eq with
  | some operand => equals value operand
  | none =>
  match c.neq with
  | some operand => !equals value operand
  | none =>
  match c.gt with
  | some operand => compare (fun a b => decide (b < a)) value operand
  | none =>
  match c.gte with
  | some operand => compare (fun a b => decide (b ≤ a)) value operand
  | none =>
  match c.lt with
  | some operand => compare (fun a b => decide (a < b)) value operand
  | none =>
  match c.lte with
  | some operand => compare (fun a b => decide (a ≤ b)) value operand
  | none => isTruthy value

def holds (c : Condition) (model : Model) : Bool :=
  c.test (model.resolve c.path c.expr)

/-! ## Equality -/

def same (a b : Condition) : Bool :=
  a.path == b.path && a.expr == b.expr && sameOption Value.same a.eq b.eq &&
    sameOption Value.same a.neq b.neq && sameOption Value.same a.gt b.gt &&
    sameOption Value.same a.gte b.gte && sameOption Value.same a.lt b.lt &&
    sameOption Value.same a.lte b.lte

end Condition

namespace VisibleIf

def holds (v : VisibleIf) (model : Model) : Bool :=
  match v with
  | path pointer => Condition.isTruthy (model.get pointer)
  | condition c => c.holds model

def same : VisibleIf -> VisibleIf -> Bool
  | path a, path b => a == b
  | condition a, condition b => a.same b
  | _, _ => false

end VisibleIf

namespace Content

/-- A path that leads nowhere shows null. -/
def resolve (c : Content) (model : Model) : Value :=
  (model.resolve c.path c.expr).getD .null

end Content
end SurfaceFeed
