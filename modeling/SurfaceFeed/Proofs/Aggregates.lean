import Mathlib.Algebra.Group.Nat.Defs
import SurfaceFeed.Expression

/-!
# Laws of reductions

## Parts and wholes

A reduction sees the members of an object and not their names, so that an object
counts as the list of its values.  The reductions of two lists tell that of both
in a row, and the reductions to a truth value tell of each other.
-/

namespace SurfaceFeed
namespace Expression

/-! ## Objects -/

theorem lengthOf_object (fields : List (String × Value)) :
    lengthOf (.object fields) = lengthOf (.array (fields.map Prod.snd)) :=
  (List.length_map Prod.snd).symm

theorem evaluate_object (e : Expression) (fields : List (String × Value)) :
    evaluate e (.object fields) = evaluate e (.array (fields.map Prod.snd)) := by
  have hlength := lengthOf_object fields
  cases e with
  | length => exact congrArg (fun n => Value.int (Int64.ofNat n)) hlength
  | count => exact congrArg (fun n => Value.int (Int64.ofNat n)) hlength
  | any => rfl
  | all => rfl
  | none => rfl
  | sum => rfl

/-! ## Two lists in a row -/

section Lists

variable (as bs : List Value)

@[simp] theorem lengthOf_append :
    lengthOf (.array (as ++ bs)) = lengthOf (.array as) + lengthOf (.array bs) :=
  List.length_append

@[simp] theorem anyTruthy_append :
    anyTruthy (.array (as ++ bs)) = (anyTruthy (.array as) || anyTruthy (.array bs)) :=
  List.any_append

variable {as bs}

theorem allTruthy_of_ne_nil (h : as ≠ []) : allTruthy (.array as) = as.all Value.isTruthy := by
  show (!as.isEmpty && as.all Value.isTruthy) = as.all Value.isTruthy
  rw [List.isEmpty_eq_false_iff.2 h]
  rfl

theorem allTruthy_append (has : as ≠ []) (hbs : bs ≠ []) :
    allTruthy (.array (as ++ bs)) = (allTruthy (.array as) && allTruthy (.array bs)) := by
  have hboth : as ++ bs ≠ [] := List.append_ne_nil_of_left_ne_nil has bs
  rw [allTruthy_of_ne_nil hboth, allTruthy_of_ne_nil has, allTruthy_of_ne_nil hbs]
  exact List.all_append

end Lists

/-! ## All and any -/

theorem any_of_all {members : List Value} (hne : members.isEmpty = false)
    (h : members.all Value.isTruthy = true) : members.any Value.isTruthy = true := by
  cases members with
  | nil => cases hne
  | cons member members =>
      have hmember := List.all_eq_true.1 h member List.mem_cons_self
      exact List.any_eq_true.2 ⟨member, List.mem_cons_self, hmember⟩

theorem anyTruthy_of_allTruthy {value : Value} (h : allTruthy value = true) :
    anyTruthy value = true := by
  unfold allTruthy at h
  unfold anyTruthy
  cases hmembers : members? value with
  | none =>
      rw [hmembers] at h
      exact h
  | some members =>
      rw [hmembers] at h
      rcases (Bool.and_eq_true _ _).mp h with ⟨hne, hall⟩
      exact any_of_all (by simpa using hne) hall

/-! ## The laws together -/

/-- The truth values that a reduction gives for two parts are joined to that for the whole. -/
def Joins (e : Expression) (join : Bool -> Bool -> Bool) (first second whole : Value) : Prop :=
  exists a b, evaluate e first = .bool a ∧ evaluate e second = .bool b ∧
    evaluate e whole = .bool (join a b)

/-- The length of the whole is that of its parts together, and no bit is lost below `2 ^ 63`. -/
def Adds (e : Expression) (first second whole : Value) : Prop :=
  exists m n : Int64, evaluate e first = .int m ∧ evaluate e second = .int n ∧
    evaluate e whole = .int (m + n) ∧
      (lengthOf whole < 2 ^ 63 -> (m + n).toInt = m.toInt + n.toInt)

theorem adds_of_evaluate {e : Expression}
    (h : forall value, evaluate e value = .int (Int64.ofNat (lengthOf value)))
    (as bs : List Value) : Adds e (.array as) (.array bs) (.array (as ++ bs)) := by
  have hsum := lengthOf_append as bs
  refine ⟨_, _, h _, h _, ?_, ?_⟩
  · rw [h, hsum, Int64.ofNat_add]
  · intro hbound
    rw [← Int64.ofNat_add, ← hsum, Int64.toInt_ofNat_of_lt hbound,
      Int64.toInt_ofNat_of_lt (by omega), Int64.toInt_ofNat_of_lt (by omega), hsum,
      Int.natCast_add]

theorem joins_any (as bs : List Value) :
    Joins any or (.array as) (.array bs) (.array (as ++ bs)) :=
  ⟨_, _, rfl, rfl, congrArg Value.bool (anyTruthy_append as bs)⟩

theorem joins_none (as bs : List Value) :
    Joins none and (.array as) (.array bs) (.array (as ++ bs)) := by
  refine ⟨_, _, rfl, rfl, ?_⟩
  show Value.bool (!anyTruthy (.array (as ++ bs))) = _
  rw [anyTruthy_append, Bool.not_or]

theorem joins_all {as bs : List Value} (has : as ≠ []) (hbs : bs ≠ []) :
    Joins all and (.array as) (.array bs) (.array (as ++ bs)) :=
  ⟨_, _, rfl, rfl, congrArg Value.bool (allTruthy_append has hbs)⟩

/--
An object is reduced as the list of its values, in the order of the names.  Lengths of lists add
up; any, none and all of a list in two parts are told by the parts, all only if neither part is
empty.  Of any value none is the opposite of any, and what holds of all holds of any.
-/
theorem evaluate_composes :
    (forall e fields, evaluate e (.object fields) = evaluate e (.array (fields.map Prod.snd))) ∧
    (forall as bs : List Value,
      Adds length (.array as) (.array bs) (.array (as ++ bs)) ∧
      Adds count (.array as) (.array bs) (.array (as ++ bs)) ∧
      Joins any or (.array as) (.array bs) (.array (as ++ bs)) ∧
      Joins none and (.array as) (.array bs) (.array (as ++ bs)) ∧
      (as ≠ [] -> bs ≠ [] -> Joins all and (.array as) (.array bs) (.array (as ++ bs)))) ∧
    (forall value, exists a b, evaluate any value = .bool a ∧ evaluate none value = .bool (!a) ∧
      evaluate all value = .bool b ∧ (b = true -> a = true)) := by
  refine ⟨evaluate_object, ?_, ?_⟩
  · intro as bs
    exact ⟨adds_of_evaluate (fun _ => rfl) as bs, adds_of_evaluate (fun _ => rfl) as bs,
      joins_any as bs, joins_none as bs, joins_all⟩
  · intro value
    exact ⟨anyTruthy value, allTruthy value, rfl, rfl, rfl, anyTruthy_of_allTruthy⟩

theorem evaluate_composes_of_flags :
    let marks : List Value := [.int 1, .object []]
    let texts : List Value := [.text ""]
    (marks ≠ [] ∧ texts ≠ []) ∧ evaluate all (.array marks) = .bool true ∧
      evaluate all (.array texts) = .bool false ∧
        evaluate all (.array (marks ++ texts)) = .bool false := by
  intro marks texts
  have hmarks : marks ≠ [] := List.cons_ne_nil _ _
  have htexts : texts ≠ [] := List.cons_ne_nil _ _
  rcases (evaluate_composes.2.1 marks texts).2.2.2.2 hmarks htexts with ⟨a, b, ha, hb, hab⟩
  have hfirst : evaluate all (.array marks) = .bool true := rfl
  have hsecond : evaluate all (.array texts) = .bool false := rfl
  cases ha.symm.trans hfirst
  cases hb.symm.trans hsecond
  exact ⟨⟨hmarks, htexts⟩, hfirst, hsecond, hab⟩

end Expression
end SurfaceFeed
