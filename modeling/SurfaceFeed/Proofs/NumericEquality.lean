import SurfaceFeed.Proofs.Comparison
import SurfaceFeed.Proofs.Message.Equality

/-!
# Laws of numeric equality

## When equality passes on

A value equals itself if it holds no undefined number, and it equals what equals
it.  Two integers are compared as they are, and an integer with a float by the
float next to it, so that one float may equal several integers, which differ from
each other.  Equality passes on wherever no two such integers meet.
-/

namespace SurfaceFeed
namespace Value

open Rounding

/-! ## Values without undefined numbers -/

mutual

def Defined : Value -> Prop
  | null | bool _ | int _ | text _ => True
  | float f => f.isNaN = false
  | array items => DefinedItems items
  | object fields => DefinedFields fields

def DefinedItems : List Value -> Prop
  | [] => True
  | item :: items => Defined item ∧ DefinedItems items

def DefinedFields : List (String × Value) -> Prop
  | [] => True
  | (_, value) :: fields => Defined value ∧ DefinedFields fields

end

theorem beq_self_iff_isNaN (f : Float) : (f == f) = true ↔ f.isNaN = false := by
  rw [Float.beq_self_iff, Float.isNaN_eq_decide_eq_nan, decide_eq_false_iff_not]

mutual

theorem same_self_iff (value : Value) : same value value = true ↔ value.Defined := by
  cases value with
  | null => exact iff_of_true rfl trivial
  | bool b => exact iff_of_true (BEq.refl b) trivial
  | int n => exact iff_of_true (BEq.refl n) trivial
  | float f => exact beq_self_iff_isNaN f
  | text s => exact iff_of_true (BEq.refl s) trivial
  | array items => exact sameItems_self_iff items
  | object fields => exact sameFields_self_iff fields

theorem sameItems_self_iff (items : List Value) :
    sameItems items items = true ↔ DefinedItems items := by
  cases items with
  | nil => exact iff_of_true rfl trivial
  | cons item items =>
      rw [sameItems, Bool.and_eq_true, same_self_iff item, sameItems_self_iff items]
      rfl

theorem sameFields_self_iff (fields : List (String × Value)) :
    sameFields fields fields = true ↔ DefinedFields fields := by
  cases fields with
  | nil => exact iff_of_true rfl trivial
  | cons field fields =>
      rw [sameFields, BEq.refl field.1, Bool.true_and, Bool.and_eq_true, same_self_iff field.2,
        sameFields_self_iff fields]
      rfl

end

/-! ## Integers that rounding merges -/

mutual

/-- At one place of both values there are different integers, with one float next to them. -/
def Merged : Value -> Value -> Prop
  | int m, int n => m ≠ n ∧ nearestInt m.toInt = nearestInt n.toInt
  | array as, array bs => MergedItems as bs
  | object as, object bs => MergedFields as bs
  | _, _ => False

def MergedItems : List Value -> List Value -> Prop
  | a :: as, b :: bs => Merged a b ∨ MergedItems as bs
  | _, _ => False

def MergedFields : List (String × Value) -> List (String × Value) -> Prop
  | (_, a) :: as, (_, b) :: bs => Merged a b ∨ MergedFields as bs
  | _, _ => False

end

mutual

def Exact : Value -> Prop
  | null | bool _ | float _ | text _ => True
  | int n => n.toInt.natAbs ≤ 2 ^ 53
  | array items => ExactItems items
  | object fields => ExactFields fields

def ExactItems : List Value -> Prop
  | [] => True
  | item :: items => Exact item ∧ ExactItems items

def ExactFields : List (String × Value) -> Prop
  | [] => True
  | (_, value) :: fields => Exact value ∧ ExactFields fields

end

mutual

theorem Exact.not_merged {a b : Value} (ha : a.Exact) (hb : b.Exact) : ¬ Merged a b := by
  cases a with
  | int m =>
      cases b with
      | int n =>
          rintro ⟨hne, hnearest⟩
          rw [nearestInt_of_natAbs_le ha, nearestInt_of_natAbs_le hb] at hnearest
          exact hne (Int64.toInt_inj.1 hnearest)
      | _ => exact id
  | array as =>
      cases b with
      | array bs => exact ExactItems.not_merged ha hb
      | _ => exact id
  | object as =>
      cases b with
      | object bs => exact ExactFields.not_merged ha hb
      | _ => exact id
  | _ => exact id

theorem ExactItems.not_merged {as bs : List Value} (ha : ExactItems as) (hb : ExactItems bs) :
    ¬ MergedItems as bs := by
  cases as with
  | nil => exact id
  | cons a as =>
      cases bs with
      | nil => exact id
      | cons b bs =>
          rintro (h | h)
          · exact Exact.not_merged ha.1 hb.1 h
          · exact ExactItems.not_merged ha.2 hb.2 h

theorem ExactFields.not_merged {as bs : List (String × Value)} (ha : ExactFields as)
    (hb : ExactFields bs) : ¬ MergedFields as bs := by
  cases as with
  | nil => exact id
  | cons a as =>
      cases bs with
      | nil => exact id
      | cons b bs =>
          rintro (h | h)
          · exact Exact.not_merged ha.1 hb.1 h
          · exact ExactFields.not_merged ha.2 hb.2 h

end

/-! ## Numbers -/

theorem ofInt_toInt_beq_iff {m n : Int64} :
    (Float.ofInt m.toInt == Float.ofInt n.toInt) = true ↔
      nearestInt m.toInt = nearestInt n.toInt :=
  ofInt_beq_iff (Operator.natAbs_toInt_lt m) (Operator.natAbs_toInt_lt n)

theorem exists_number_of_same {a b : Value} {x : Float} (ha : a.number? = some x)
    (h : same a b = true) : exists y, b.number? = some y ∧ (x == y) = true := by
  cases a with
  | int m =>
      cases ha
      cases b with
      | int n =>
          have hmn : m = n := eq_of_beq h
          rw [hmn]
          exact ⟨_, rfl, ofInt_toInt_beq_iff.2 rfl⟩
      | float f => exact ⟨f, rfl, h⟩
      | _ => cases h
  | float f =>
      cases ha
      cases b with
      | int n => exact ⟨_, rfl, h⟩
      | float g => exact ⟨g, rfl, h⟩
      | _ => cases h
  | _ => cases ha

/-- Numbers with equal floats are equal, unless they are integers that rounding merges. -/
theorem same_numbers_iff {a b : Value} {x y : Float} (ha : a.number? = some x)
    (hb : b.number? = some y) (h : (x == y) = true) : same a b = true ↔ ¬ Merged a b := by
  cases a with
  | int m =>
      cases b with
      | int n =>
          cases ha
          cases hb
          show (m == n) = true ↔ ¬ (m ≠ n ∧ nearestInt m.toInt = nearestInt n.toInt)
          rw [beq_iff_eq, and_iff_left (ofInt_toInt_beq_iff.1 h), Classical.not_not]
      | float g =>
          cases ha
          cases hb
          exact iff_of_true h id
      | _ => cases hb
  | float f =>
      cases b with
      | int n =>
          cases ha
          cases hb
          exact iff_of_true h id
      | float g =>
          cases ha
          cases hb
          exact iff_of_true h id
      | _ => cases hb
  | _ => cases ha

theorem same_number_trans_iff {a b c : Value} {x : Float} (ha : a.number? = some x)
    (hab : same a b = true) (hbc : same b c = true) : same a c = true ↔ ¬ Merged a c := by
  rcases exists_number_of_same ha hab with ⟨y, hb, hxy⟩
  rcases exists_number_of_same hb hbc with ⟨z, hc, hyz⟩
  exact same_numbers_iff ha hc (PartialEquivBEq.trans hxy hyz)

/-! ## Equality passes on -/

mutual

theorem same_trans_iff {a b c : Value} (hab : same a b = true) (hbc : same b c = true) :
    same a c = true ↔ ¬ Merged a c := by
  cases a with
  | int m => exact same_number_trans_iff rfl hab hbc
  | float f => exact same_number_trans_iff rfl hab hbc
  | null =>
      cases b with
      | null =>
          cases c with
          | null => exact iff_of_true rfl id
          | _ => cases hbc
      | _ => cases hab
  | bool a =>
      cases b with
      | bool b =>
          cases c with
          | bool c => exact iff_of_true (PartialEquivBEq.trans (a := a) hab hbc) id
          | _ => cases hbc
      | _ => cases hab
  | text a =>
      cases b with
      | text b =>
          cases c with
          | text c => exact iff_of_true (PartialEquivBEq.trans (a := a) hab hbc) id
          | _ => cases hbc
      | _ => cases hab
  | array as =>
      cases b with
      | array bs =>
          cases c with
          | array cs => exact sameItems_trans_iff hab hbc
          | _ => cases hbc
      | _ => cases hab
  | object as =>
      cases b with
      | object bs =>
          cases c with
          | object cs => exact sameFields_trans_iff hab hbc
          | _ => cases hbc
      | _ => cases hab
termination_by structural a

theorem sameItems_trans_iff {as bs cs : List Value} (hab : sameItems as bs = true)
    (hbc : sameItems bs cs = true) : sameItems as cs = true ↔ ¬ MergedItems as cs := by
  cases as with
  | nil =>
      cases bs with
      | nil =>
          cases cs with
          | nil => exact iff_of_true rfl id
          | cons c cs => cases hbc
      | cons b bs => cases hab
  | cons a as =>
      cases bs with
      | nil => cases hab
      | cons b bs =>
          cases cs with
          | nil => cases hbc
          | cons c cs =>
              rw [sameItems, Bool.and_eq_true] at hab hbc ⊢
              rw [same_trans_iff hab.1 hbc.1, sameItems_trans_iff hab.2 hbc.2, MergedItems, not_or]
termination_by structural as

theorem sameFields_trans_iff {as bs cs : List (String × Value)} (hab : sameFields as bs = true)
    (hbc : sameFields bs cs = true) : sameFields as cs = true ↔ ¬ MergedFields as cs := by
  cases as with
  | nil =>
      cases bs with
      | nil =>
          cases cs with
          | nil => exact iff_of_true rfl id
          | cons c cs => cases hbc
      | cons b bs => cases hab
  | cons a as =>
      cases bs with
      | nil => cases hab
      | cons b bs =>
          cases cs with
          | nil => cases hbc
          | cons c cs =>
              rw [sameFields, Bool.and_eq_true, Bool.and_eq_true] at hab hbc ⊢
              have hname := PartialEquivBEq.trans hab.1.1 hbc.1.1
              rw [and_iff_right hname, same_trans_iff hab.1.2 hbc.1.2,
                sameFields_trans_iff hab.2 hbc.2, MergedFields, not_or]
termination_by structural as

end

/--
A value equals itself if it holds no undefined number, and equality does not depend on the side.
It passes on just where rounding merges no integers of the two ends; in particular it does
between values with integers of at most 53 bits.  Integers that are merged are told apart, though
both equal the float next to them.
-/
theorem equality_laws (a b c : Value) :
    (a.Defined -> (a == a) = true) ∧
    ((a == b) = true -> (b == a) = true) ∧
    ((a == b) = true -> (b == c) = true -> ((a == c) = true ↔ ¬ Merged a c)) ∧
    (a.Exact -> c.Exact -> (a == b) = true -> (b == c) = true -> (a == c) = true) ∧
    (forall m n : Int64, Merged (int m) (int n) -> exists f : Float,
      (int m == float f) = true ∧ (float f == int n) = true ∧ (int m == int n) = false) := by
  refine ⟨(same_self_iff a).2, ?_, same_trans_iff, ?_, ?_⟩
  · intro h
    rw [← h]
    exact same_comm b a
  · intro ha hc hab hbc
    exact (same_trans_iff hab hbc).2 (ha.not_merged hc)
  · rintro m n ⟨hne, hnearest⟩
    have hsame : same (int m) (int n) = false := beq_eq_false_iff_ne.2 hne
    exact ⟨Float.ofInt m.toInt, ofInt_toInt_beq_iff.2 rfl, ofInt_toInt_beq_iff.2 hnearest, hsame⟩

theorem equality_laws_of_neighbours :
    let a : Value := array [text "n", int 9007199254740992]
    let b : Value := array [text "n", float 9007199254740992]
    let c : Value := array [text "n", int 9007199254740993]
    ((a == b) = true ∧ (b == c) = true ∧ Merged a c ∧ ¬ (a == c) = true) ∧
      (a.Exact ∧ (b == a) = true ∧ (a == a) = true) ∧
      (b.Defined ∧ (b == b) = true) ∧
      exists f : Float, (int 9007199254740992 == float f) = true ∧
        (float f == int 9007199254740993) = true ∧
        (int 9007199254740992 == int 9007199254740993) = false := by
  intro a b c
  rcases equality_laws a b c with ⟨_, hcomm, hpasses, _, hfloat⟩
  have hab : (a == b) = true := by decide +kernel
  have hbc : (b == c) = true := by decide +kernel
  have hnumbers : Merged (int 9007199254740992) (int 9007199254740993) :=
    ⟨by decide, by decide⟩
  have hmerged : Merged a c := .inr (.inl hnumbers)
  have hint : (9007199254740992 : Int64).toInt.natAbs ≤ 2 ^ 53 := by decide
  have ha : a.Exact := ⟨trivial, hint, trivial⟩
  have hnumber : Float.isNaN 9007199254740992 = false := by decide +kernel
  have hb : b.Defined := ⟨trivial, hnumber, trivial⟩
  have hba := hcomm hab
  have haa := (equality_laws a b a).2.2.2.1 ha ha hab hba
  have hbb := (equality_laws b b b).1 hb
  refine ⟨⟨hab, hbc, hmerged, ?_⟩, ⟨ha, hba, haa⟩, ⟨hb, hbb⟩, hfloat _ _ hnumbers⟩
  rw [hpasses hab hbc]
  exact not_not_intro hmerged

/-- One float equals two integers that differ. -/
theorem equality_not_transitive :
    let a : Value := int 9007199254740992
    let b : Value := float 9007199254740992
    let c : Value := int 9007199254740993
    (a.Defined ∧ b.Defined ∧ c.Defined) ∧
      (a == b) = true ∧ (b == c) = true ∧ ¬ (a == c) = true := by
  intro a b c
  have hab : (a == b) = true := by decide +kernel
  have hbc : (b == c) = true := by decide +kernel
  have hb : Float.isNaN 9007199254740992 = false := by decide +kernel
  exact ⟨⟨trivial, hb, trivial⟩, hab, hbc, by decide⟩

end Value
end SurfaceFeed
