import SurfaceFeed.Proofs.Rounding
import SurfaceFeed.Proofs.Visibility

/-!
# Conditions on integers

## Two ways to compare

An operator that asks whether two integers are equal compares them as they are,
and one that asks for their order compares the floats next to them.  The two
agree as long as the floats tell the integers apart.
-/

namespace SurfaceFeed

namespace Condition

def only (path : String) (op : Operator) (operand : Value) : Condition :=
  match op with
  | .eq => { truthy path with eq := some operand }
  | .neq => { truthy path with neq := some operand }
  | .gt => { truthy path with gt := some operand }
  | .gte => { truthy path with gte := some operand }
  | .lt => { truthy path with lt := some operand }
  | .lte => { truthy path with lte := some operand }

theorem holds_only (model : Model) (path : String) (op : Operator) (operand : Value) :
    (only path op operand).holds model = op.judge (model.get path) operand := by
  have hfirst : (only path op operand).first? = some (op, operand) := by cases op <;> rfl
  have hvalue : model.resolve (only path op operand).path (only path op operand).expr =
      model.get path := by
    cases op <;> rfl
  rw [holds_of_first? hfirst, hvalue]

end Condition

/-! ## What the operators say of integers -/

namespace Operator

open Rounding

variable {n k : Int64}

theorem natAbs_toInt_lt (n : Int64) : n.toInt.natAbs < 2 ^ 64 := by
  have hlow := n.le_toInt
  have hhigh := n.toInt_lt
  omega

theorem judge_eq_int : judge .eq (some (.int n)) (.int k) = true ↔ n = k := by
  show (n == k) = true ↔ n = k
  exact beq_iff_eq

theorem judge_lt_int :
    judge .lt (some (.int n)) (.int k) = true ↔ nearestInt n.toInt < nearestInt k.toInt := by
  show decide (Float.ofInt n.toInt < Float.ofInt k.toInt) = true ↔ _
  rw [decide_eq_true_iff, ofInt_lt_iff (natAbs_toInt_lt n) (natAbs_toInt_lt k)]

theorem judge_gt_int :
    judge .gt (some (.int n)) (.int k) = true ↔ nearestInt k.toInt < nearestInt n.toInt :=
  judge_lt_int

theorem judge_lte_int :
    judge .lte (some (.int n)) (.int k) = true ↔ nearestInt n.toInt ≤ nearestInt k.toInt := by
  show decide (Float.ofInt n.toInt ≤ Float.ofInt k.toInt) = true ↔ _
  rw [decide_eq_true_iff, ofInt_le_iff (natAbs_toInt_lt n) (natAbs_toInt_lt k)]

theorem judge_gte_int :
    judge .gte (some (.int n)) (.int k) = true ↔ nearestInt k.toInt ≤ nearestInt n.toInt :=
  judge_lte_int

end Operator

/-! ## Which orders are told -/

namespace VisibleIf

open Rounding

def shown (model : Model) (path : String) (op : Operator) (k : Int64) : Bool :=
  (condition (.only path op (.int k))).holds model

/-- The operators tell the order of the integer at a path and the operand. -/
structure TellsOrder (model : Model) (path : String) (n k : Int64) : Prop where
  lt : shown model path .lt k = true ↔ n < k
  eq : shown model path .eq k = true ↔ n = k
  gt : shown model path .gt k = true ↔ k < n
  lte : shown model path .lte k = true ↔
    shown model path .lt k = true ∨ shown model path .eq k = true
  gte : shown model path .gte k = true ↔
    shown model path .gt k = true ∨ shown model path .eq k = true

section Integers

variable {model : Model} {path : String} {n k : Int64}

theorem shown_eq (hfound : model.get path = some (.int n)) (op : Operator) :
    shown model path op k = op.judge (some (.int n)) (.int k) := by
  show (Condition.only path op (.int k)).holds model = _
  rw [Condition.holds_only, hfound]

theorem shown_eq_iff (hfound : model.get path = some (.int n)) :
    shown model path .eq k = true ↔ n = k := by
  rw [shown_eq hfound, Operator.judge_eq_int]

theorem shown_lt_iff (hfound : model.get path = some (.int n)) :
    shown model path .lt k = true ↔ nearestInt n.toInt < nearestInt k.toInt := by
  rw [shown_eq hfound, Operator.judge_lt_int]

theorem shown_gt_iff (hfound : model.get path = some (.int n)) :
    shown model path .gt k = true ↔ nearestInt k.toInt < nearestInt n.toInt := by
  rw [shown_eq hfound, Operator.judge_gt_int]

theorem shown_lte_iff (hfound : model.get path = some (.int n)) :
    shown model path .lte k = true ↔ nearestInt n.toInt ≤ nearestInt k.toInt := by
  rw [shown_eq hfound, Operator.judge_lte_int]

theorem shown_gte_iff (hfound : model.get path = some (.int n)) :
    shown model path .gte k = true ↔ nearestInt k.toInt ≤ nearestInt n.toInt := by
  rw [shown_eq hfound, Operator.judge_gte_int]

theorem lt_of_nearestInt_lt (h : nearestInt n.toInt < nearestInt k.toInt) : n < k := by
  rw [Int64.lt_iff_toInt_lt]
  apply Int.lt_of_not_ge
  intro hle
  exact absurd (nearestInt_mono hle) (Int.not_le.2 h)

/-- Integers that their floats tell apart stand in the order of the floats. -/
theorem nearestInt_lt_iff (h : nearestInt n.toInt = nearestInt k.toInt -> n = k) :
    nearestInt n.toInt < nearestInt k.toInt ↔ n < k := by
  refine ⟨lt_of_nearestInt_lt, ?_⟩
  intro hlt
  have hle : n.toInt ≤ k.toInt := Int.le_of_lt (Int64.lt_iff_toInt_lt.1 hlt)
  rcases Int.lt_or_eq_of_le (nearestInt_mono hle) with hnearest | hsame
  · exact hnearest
  · rw [h hsame] at hlt
    exact absurd hlt Int64.lt_irrefl

theorem nearestInt_le_iff (h : nearestInt n.toInt = nearestInt k.toInt -> n = k) :
    nearestInt n.toInt ≤ nearestInt k.toInt ↔ nearestInt n.toInt < nearestInt k.toInt ∨ n = k := by
  have hsame : nearestInt n.toInt = nearestInt k.toInt ↔ n = k :=
    ⟨h, fun heq => congrArg _ (congrArg _ heq)⟩
  rw [Int.le_iff_lt_or_eq, hsame]

theorem tellsOrder_iff (hfound : model.get path = some (.int n)) :
    TellsOrder model path n k ↔ (nearestInt n.toInt = nearestInt k.toInt -> n = k) := by
  constructor
  · intro h hsame
    have hlt : ¬ n < k := by
      rw [← h.lt, shown_lt_iff hfound, hsame]
      exact Int.lt_irrefl _
    have hgt : ¬ k < n := by
      rw [← h.gt, shown_gt_iff hfound, hsame]
      exact Int.lt_irrefl _
    exact Int64.le_antisymm (Int64.not_lt.1 hgt) (Int64.not_lt.1 hlt)
  · intro h
    have hswap : nearestInt k.toInt = nearestInt n.toInt -> k = n := fun hsame => (h hsame.symm).symm
    constructor
    · rw [shown_lt_iff hfound, nearestInt_lt_iff h]
    · exact shown_eq_iff hfound
    · rw [shown_gt_iff hfound, nearestInt_lt_iff hswap]
    · rw [shown_lte_iff hfound, shown_lt_iff hfound, shown_eq_iff hfound, nearestInt_le_iff h]
    · rw [shown_gte_iff hfound, shown_gt_iff hfound, shown_eq_iff hfound, nearestInt_le_iff hswap,
        eq_comm]

/--
Equality is exact, and the four orders are those of the nearest floats.  So the operators tell the
order of two integers just if their floats are equal for equal integers only, as those of 53 bits
are.  An order that is told strictly is never wrong, and one that holds is told at least weakly.
-/
theorem tellsOrder_of_integers (hfound : model.get path = some (.int n)) :
    (shown model path .eq k = true ↔ n = k) ∧
    (shown model path .lt k = true ↔ nearestInt n.toInt < nearestInt k.toInt) ∧
    (shown model path .gt k = true ↔ nearestInt k.toInt < nearestInt n.toInt) ∧
    (shown model path .lte k = true ↔ nearestInt n.toInt ≤ nearestInt k.toInt) ∧
    (shown model path .gte k = true ↔ nearestInt k.toInt ≤ nearestInt n.toInt) ∧
    (TellsOrder model path n k ↔ (nearestInt n.toInt = nearestInt k.toInt -> n = k)) ∧
    (n.toInt.natAbs ≤ 2 ^ 53 -> k.toInt.natAbs ≤ 2 ^ 53 -> TellsOrder model path n k) ∧
    (shown model path .lt k = true -> n < k) ∧ (shown model path .gt k = true -> k < n) ∧
    (n ≤ k -> shown model path .lte k = true) ∧ (k ≤ n -> shown model path .gte k = true) := by
  refine ⟨shown_eq_iff hfound, shown_lt_iff hfound, shown_gt_iff hfound, shown_lte_iff hfound,
    shown_gte_iff hfound, tellsOrder_iff hfound, ?_, ?_, ?_, ?_, ?_⟩
  · intro hn hk
    rw [tellsOrder_iff hfound, nearestInt_of_natAbs_le hn, nearestInt_of_natAbs_le hk]
    exact Int64.toInt_inj.1
  · intro h
    exact lt_of_nearestInt_lt ((shown_lt_iff hfound).1 h)
  · intro h
    exact lt_of_nearestInt_lt ((shown_gt_iff hfound).1 h)
  · intro h
    exact (shown_lte_iff hfound).2 (nearestInt_mono (Int64.le_iff_toInt_le.1 h))
  · intro h
    exact (shown_gte_iff hfound).2 (nearestInt_mono (Int64.le_iff_toInt_le.1 h))

end Integers

def numbered : Model :=
  ⟨.object [("n", .int 9007199254740992)], rfl⟩

theorem get_numbered : numbered.get "/n" = some (.int 9007199254740992) :=
  rfl

theorem tellsOrder_of_numbered :
    numbered.get "/n" = some (.int 9007199254740992) ∧
      TellsOrder numbered "/n" 9007199254740992 (-9007199254740992) ∧
      shown numbered "/n" .lte 9007199254740993 = true := by
  rcases tellsOrder_of_integers (k := -9007199254740992) get_numbered with
    ⟨_, _, _, _, _, _, htells, _⟩
  rcases tellsOrder_of_integers (k := 9007199254740993) get_numbered with
    ⟨_, _, _, _, _, _, _, _, _, hlte, _⟩
  exact ⟨get_numbered, htells (by decide) (by decide), hlte (by decide)⟩

/-- The next integer has the same float: it is not told to be larger, and told to be no larger. -/
theorem not_tellsOrder_of_numbered :
    numbered.get "/n" = some (.int 9007199254740992) ∧
      shown numbered "/n" .lt 9007199254740993 = false ∧
      shown numbered "/n" .eq 9007199254740993 = false ∧
      shown numbered "/n" .gt 9007199254740993 = false ∧
      shown numbered "/n" .gte 9007199254740993 = true ∧
      ¬ TellsOrder numbered "/n" 9007199254740992 9007199254740993 := by
  have hsame : nearestInt (9007199254740992 : Int64).toInt =
      nearestInt (9007199254740993 : Int64).toInt := by decide
  refine ⟨get_numbered, ?_, ?_, ?_, ?_, ?_⟩
  · rw [← Bool.not_eq_true, shown_lt_iff get_numbered, hsame]
    exact Int.lt_irrefl _
  · rw [← Bool.not_eq_true, shown_eq_iff get_numbered]
    decide
  · rw [← Bool.not_eq_true, shown_gt_iff get_numbered, hsame]
    exact Int.lt_irrefl _
  · rw [shown_gte_iff get_numbered, hsame]
  · rw [tellsOrder_iff get_numbered]
    intro h
    exact absurd (h hsame) (by decide)

end VisibleIf
end SurfaceFeed
