import Mathlib.Data.List.Basic
import SurfaceFeed.Condition

/-!
# Laws of visibility

## The first operator that is present

Of the operators of a condition the first one decides, in the order in which
they are looked for.  What the condition says of a model is then what this
operator says of the value at the path; the operators behind it are never asked.
-/

namespace SurfaceFeed

inductive Operator where
  | eq
  | neq
  | gt
  | gte
  | lt
  | lte
  deriving DecidableEq, Repr

namespace Operator

def all : List Operator :=
  [eq, neq, gt, gte, lt, lte]

def isOrdering : Operator -> Bool
  | eq | neq => false
  | gt | gte | lt | lte => true

/-- What the operator says of a value. -/
def judge (op : Operator) (value : Option Value) (operand : Value) : Bool :=
  match op with
  | eq => Condition.equals value operand
  | neq => !Condition.equals value operand
  | gt => Condition.compare (fun a b => decide (b < a)) value operand
  | gte => Condition.compare (fun a b => decide (b ≤ a)) value operand
  | lt => Condition.compare (fun a b => decide (a < b)) value operand
  | lte => Condition.compare (fun a b => decide (a ≤ b)) value operand

end Operator

namespace Value

theorem number?_eq_none_iff {value : Value} : value.number? = none ↔ value.isNumber = false := by
  cases value <;> simp [number?, isNumber]

end Value

namespace Condition

def operand? (c : Condition) : Operator -> Option Value
  | .eq => c.eq
  | .neq => c.neq
  | .gt => c.gt
  | .gte => c.gte
  | .lt => c.lt
  | .lte => c.lte

def present (c : Condition) (operators : List Operator) : List (Operator × Value) :=
  operators.filterMap fun op => (c.operand? op).map fun operand => (op, operand)

/-- The first operator that is present, with its operand. -/
def first? (c : Condition) : Option (Operator × Value) :=
  (c.present Operator.all).head?

@[simp] theorem present_append (c : Condition) (front back : List Operator) :
    c.present (front ++ back) = c.present front ++ c.present back :=
  List.filterMap_append

theorem present_cons_of_some {c : Condition} {op : Operator} {operand : Value}
    (operators : List Operator) (h : c.operand? op = some operand) :
    c.present (op :: operators) = (op, operand) :: c.present operators := by
  rw [present, List.filterMap_cons, h]
  rfl

theorem test_eq (c : Condition) (value : Option Value) :
    c.test value =
      match c.first? with
      | some (op, operand) => op.judge value operand
      | none => isTruthy value := by
  rcases c with ⟨path, expr, eq, neq, gt, gte, lt, lte⟩
  cases eq with
  | some operand => rfl
  | none =>
  cases neq with
  | some operand => rfl
  | none =>
  cases gt with
  | some operand => rfl
  | none =>
  cases gte with
  | some operand => rfl
  | none =>
  cases lt with
  | some operand => rfl
  | none => cases lte <;> rfl

theorem holds_of_first? {c : Condition} {op : Operator} {operand : Value}
    (h : c.first? = some (op, operand)) (model : Model) :
    c.holds model = op.judge (model.resolve c.path c.expr) operand := by
  rw [holds, test_eq, h]

/-- The operators behind one that is present do not change which is the first. -/
theorem first?_congr {c d : Condition} {op : Operator} {front back : List Operator}
    (hall : Operator.all = front ++ op :: back) (hpresent : (c.operand? op).isSome = true)
    (h : forall other, other ∉ back -> c.operand? other = d.operand? other) :
    c.first? = d.first? := by
  have hdistinct : (front ++ op :: back).Nodup := by
    rw [← hall]
    decide
  rcases List.nodup_append.1 hdistinct with ⟨_, hback, hfront⟩
  have hop : c.operand? op = d.operand? op := h op (List.nodup_cons.1 hback).1
  rcases Option.isSome_iff_exists.1 hpresent with ⟨operand, hoperand⟩
  have hsame : c.present front = d.present front := by
    apply List.filterMap_congr
    intro other hother
    rw [h other fun hlater => hfront other hother other (List.mem_cons_of_mem _ hlater) rfl]
  simp [first?, hall, hsame, present_cons_of_some back hoperand,
    present_cons_of_some back (hop.symm.trans hoperand)]

theorem holds_congr {c d : Condition} {op : Operator} {front back : List Operator}
    (hall : Operator.all = front ++ op :: back) (hpresent : (c.operand? op).isSome = true)
    (hpath : c.path = d.path) (hexpr : c.expr = d.expr)
    (h : forall other, other ∉ back -> c.operand? other = d.operand? other) (model : Model) :
    c.holds model = d.holds model := by
  rw [holds, holds, test_eq, test_eq, first?_congr hall hpresent h, hpath, hexpr]

/-! ## Opposite answers -/

theorem first?_eq (c : Condition) (operand : Value) :
    first? { c with eq := some operand } = some (.eq, operand) :=
  rfl

theorem first?_neq (c : Condition) (operand : Value) :
    first? { c with eq := none, neq := some operand } = some (.neq, operand) :=
  rfl

theorem holds_neq (c : Condition) (operand : Value) (model : Model) :
    holds { c with eq := none, neq := some operand } model =
      !holds { c with eq := some operand } model := by
  rw [holds_of_first? (first?_neq c operand), holds_of_first? (first?_eq c operand)]
  rfl

theorem not_holds_eq_of_missing {c : Condition} {model : Model}
    (hmissing : model.get c.path = none) (hexpr : c.expr = none) (operand : Value) :
    holds { c with eq := some operand } model = false := by
  have hvalue : model.resolve c.path c.expr = none := by
    rw [hexpr]
    exact hmissing
  rw [holds_of_first? (first?_eq c operand), hvalue]
  rfl

/-! ## Orders of numbers -/

theorem compare_eq_false {order : Float -> Float -> Bool} {value : Option Value} {operand : Value}
    (h : value.bind Value.number? = none ∨ operand.number? = none) :
    compare order value operand = false := by
  unfold compare
  split
  · next a b ha hb =>
      rcases h with h | h
      · rw [h] at ha
        cases ha
      · rw [h] at hb
        cases hb
  · rfl

theorem judge_eq_false {op : Operator} {value : Option Value} {operand : Value}
    (hop : op.isOrdering = true)
    (h : value.bind Value.number? = none ∨ operand.number? = none) :
    op.judge value operand = false := by
  cases op with
  | eq => cases hop
  | neq => cases hop
  | gt => exact compare_eq_false h
  | gte => exact compare_eq_false h
  | lt => exact compare_eq_false h
  | lte => exact compare_eq_false h

theorem not_holds_of_ordering {c : Condition} {model : Model} {op : Operator} {operand : Value}
    (hfirst : c.first? = some (op, operand)) (hop : op.isOrdering = true)
    (h : (model.get c.path = none ∧ c.expr = none) ∨
      (exists value, model.resolve c.path c.expr = some value ∧ value.isNumber = false) ∨
        operand.isNumber = false) :
    c.holds model = false := by
  rw [holds_of_first? hfirst]
  apply judge_eq_false hop
  rcases h with ⟨hmissing, hexpr⟩ | ⟨value, hvalue, hnumber⟩ | hnumber
  · have hnothing : model.resolve c.path c.expr = none := by
      rw [hexpr]
      exact hmissing
    rw [hnothing]
    exact .inl rfl
  · rw [hvalue]
    exact .inl (Value.number?_eq_none_iff.2 hnumber)
  · exact .inr (Value.number?_eq_none_iff.2 hnumber)

end Condition

/-! ## The laws together -/

namespace VisibleIf

/--
Behind an operator that is present, operators may be added, changed and removed.  The two
conditions for being equal and for not being equal give opposite answers, and what is missing
equals nothing.  An ordering holds of two numbers only; the reduction of what is missing is that
of null.  A path alone is the condition with this path and nothing else.
-/
theorem holds_laws (model : Model) :
    (forall c d front op back, Operator.all = front ++ op :: back ->
      (c.operand? op).isSome = true -> c.path = d.path -> c.expr = d.expr ->
      (forall other, other ∉ back -> c.operand? other = d.operand? other) ->
      (condition c).holds model = (condition d).holds model) ∧
    ((forall (c : Condition) operand,
        (condition { c with eq := none, neq := some operand }).holds model =
          !(condition { c with eq := some operand }).holds model) ∧
      forall (c : Condition) operand, model.get c.path = none -> c.expr = none ->
        (condition { c with eq := some operand }).holds model = false) ∧
    ((forall c op operand, c.first? = some (op, operand) -> op.isOrdering = true ->
        ((model.get c.path = none ∧ c.expr = none) ∨
          (exists value, model.resolve c.path c.expr = some value ∧ value.isNumber = false) ∨
            operand.isNumber = false) ->
        (condition c).holds model = false) ∧
      forall path name, model.get path = none ->
        model.resolve path (some name) = some (Expression.evaluateNamed name .null)) ∧
    forall path, (VisibleIf.path path).holds model = (condition (.truthy path)).holds model := by
  refine ⟨?_, ⟨?_, ?_⟩, ⟨?_, ?_⟩, ?_⟩
  · intro c d front op back hall hpresent hpath hexpr h
    exact Condition.holds_congr hall hpresent hpath hexpr h model
  · intro c operand
    exact Condition.holds_neq c operand model
  · intro c operand hmissing hexpr
    exact Condition.not_holds_eq_of_missing hmissing hexpr operand
  · intro c op operand hfirst hop h
    exact Condition.not_holds_of_ordering hfirst hop h
  · intro path name hmissing
    rw [Model.resolve, hmissing]
    rfl
  · intro path
    rfl

def scored : Model :=
  ⟨.object [("score", .int 5)], rfl⟩

theorem holds_laws_of_score :
    let above : Condition := { Condition.truthy "/score" with gt := some (.int 4) }
    let gone : Condition := Condition.truthy "/gone"
    let texts : Condition := { Condition.truthy "/score" with lte := some (.text "9") }
    (condition { above with lt := some (.int 3), lte := some .null }).holds scored = true ∧
      (scored.get gone.path = none ∧
        (condition { gone with eq := some .null }).holds scored = false) ∧
      (texts.first? = some (.lte, .text "9") ∧ (condition texts).holds scored = false) := by
  intro above gone texts
  rcases holds_laws scored with ⟨hlater, ⟨_, hmissing⟩, ⟨hordering, _⟩, _⟩
  have habove : (condition above).holds scored = true := by decide
  have hbounded : (condition above).holds scored =
      (condition { above with lt := some (.int 3), lte := some .null }).holds scored := by
    apply hlater above _ [.eq, .neq] .gt [.gte, .lt, .lte] rfl rfl rfl rfl
    intro other hother
    cases other with
    | eq => rfl
    | neq => rfl
    | gt => rfl
    | gte => rfl
    | lt => exact absurd (by decide) hother
    | lte => exact absurd (by decide) hother
  have hgone : scored.get gone.path = none := by decide
  refine ⟨hbounded.symm.trans habove, ⟨hgone, hmissing gone .null hgone rfl⟩, rfl, ?_⟩
  exact hordering texts .lte (.text "9") rfl rfl (.inr (.inr rfl))

end VisibleIf
end SurfaceFeed
