import SurfaceFeed.Proofs.Decimal
import SurfaceFeed.Message.Basic

/-!
# Equality of messages

## Which side a part stands on does not matter

Messages, surfaces, components, documents and values are equal when their parts
are, and numbers are equal by what they stand for.  Equality of floats is
symmetric, and every other equality takes this from its parts.
-/

namespace SurfaceFeed

theorem sameOption_comm {α : Type} {same : α -> α -> Bool}
    (h : forall a b, same a b = same b a) (x y : Option α) :
    sameOption same x y = sameOption same y x := by
  cases x with
  | none => cases y <;> rfl
  | some a =>
      cases y with
      | none => rfl
      | some b => exact h a b

namespace Value

mutual

theorem same_comm (a b : Value) : same a b = same b a := by
  cases a with
  | array as =>
      cases b with
      | array bs => exact sameItems_comm as bs
      | _ => rfl
  | object as =>
      cases b with
      | object bs => exact sameFields_comm as bs
      | _ => rfl
  | null => cases b <;> rfl
  | bool a =>
      cases b with
      | bool b => exact BEq.comm
      | _ => rfl
  | int a =>
      cases b with
      | int b => exact BEq.comm
      | float b => exact BEq.comm
      | _ => rfl
  | float a =>
      cases b with
      | int b => exact BEq.comm
      | float b => exact BEq.comm
      | _ => rfl
  | text a =>
      cases b with
      | text b => exact BEq.comm
      | _ => rfl

theorem sameItems_comm (as bs : List Value) : sameItems as bs = sameItems bs as := by
  cases as with
  | nil => cases bs <;> rfl
  | cons a as =>
      cases bs with
      | nil => rfl
      | cons b bs => rw [sameItems, sameItems, same_comm a b, sameItems_comm as bs]

theorem sameFields_comm (as bs : List (String × Value)) :
    sameFields as bs = sameFields bs as := by
  cases as with
  | nil => cases bs <;> rfl
  | cons a as =>
      cases bs with
      | nil => rfl
      | cons b bs =>
          have hname : (a.1 == b.1) = (b.1 == a.1) := BEq.comm
          rw [sameFields, sameFields, hname, same_comm a.2 b.2, sameFields_comm as bs]

end

end Value

namespace Json

mutual

theorem same_comm (a b : Json) : same a b = same b a := by
  cases a with
  | array as =>
      cases b with
      | array bs => exact sameItems_comm as bs
      | _ => rfl
  | object as =>
      cases b with
      | object bs => exact sameFields_comm as bs
      | _ => rfl
  | null => cases b <;> rfl
  | bool a =>
      cases b with
      | bool b => exact BEq.comm
      | _ => rfl
  | int a =>
      cases b with
      | int b => exact BEq.comm
      | _ => rfl
  | float a =>
      cases b with
      | float b => exact BEq.comm
      | _ => rfl
  | text a =>
      cases b with
      | text b => exact BEq.comm
      | _ => rfl

theorem sameItems_comm (as bs : List Json) : sameItems as bs = sameItems bs as := by
  cases as with
  | nil => cases bs <;> rfl
  | cons a as =>
      cases bs with
      | nil => rfl
      | cons b bs => rw [sameItems, sameItems, same_comm a b, sameItems_comm as bs]

theorem sameFields_comm (as bs : List (String × Json)) :
    sameFields as bs = sameFields bs as := by
  cases as with
  | nil => cases bs <;> rfl
  | cons a as =>
      cases bs with
      | nil => rfl
      | cons b bs =>
          have hname : (a.1 == b.1) = (b.1 == a.1) := BEq.comm
          rw [sameFields, sameFields, hname, same_comm a.2 b.2, sameFields_comm as bs]

end

end Json

/-! ## Parts of a component -/

theorem Condition.same_comm (a b : Condition) : a.same b = b.same a := by
  have hoperand := sameOption_comm Value.same_comm
  unfold Condition.same
  rw [BEq.comm (a := a.path), BEq.comm (a := a.expr), hoperand a.eq, hoperand a.neq,
    hoperand a.gt, hoperand a.gte, hoperand a.lt, hoperand a.lte]

theorem VisibleIf.same_comm (a b : VisibleIf) : a.same b = b.same a := by
  cases a with
  | path a =>
      cases b with
      | path b => exact BEq.comm
      | condition b => rfl
  | condition a =>
      cases b with
      | path b => rfl
      | condition b => exact Condition.same_comm a b

theorem Items.same_comm (a b : Items) : a.same b = b.same a := by
  cases a with
  | path a =>
      cases b with
      | path b => exact BEq.comm
      | inline b => rfl
  | inline a =>
      cases b with
      | path b => rfl
      | inline b => exact Value.sameItems_comm a b

namespace Component

theorem sameOwn_comm (a b : Component) : sameOwn a b = sameOwn b a := by
  unfold sameOwn
  rw [BEq.comm (a := a.id), BEq.comm (a := a.kind), BEq.comm (a := a.content),
    sameOption_comm VisibleIf.same_comm a.visibleIf, sameOption_comm Items.same_comm a.items,
    Json.sameFields_comm a.props]

mutual

theorem same_comm (a b : Component) : same a b = same b a := by
  cases a with
  | mk id kind visible content items template children props =>
      cases b with
      | mk id' kind' visible' content' items' template' children' props' =>
          rw [same, same, sameTemplate_comm template template',
            sameChildren_comm children children', sameOwn_comm]
          rfl

theorem sameTemplate_comm (a b : Option Component) : sameTemplate a b = sameTemplate b a := by
  cases a with
  | none => cases b <;> rfl
  | some a =>
      cases b with
      | none => rfl
      | some b => exact same_comm a b

theorem sameChildren_comm (as bs : List Component) :
    sameChildren as bs = sameChildren bs as := by
  cases as with
  | nil => cases bs <;> rfl
  | cons a as =>
      cases bs with
      | nil => rfl
      | cons b bs =>
          rw [sameChildren, sameChildren, same_comm a b, sameChildren_comm as bs]

end

end Component

theorem Surface.same_comm (a b : Surface) : a.same b = b.same a := by
  unfold Surface.same
  rw [BEq.comm (a := a.id), BEq.comm (a := a.title), Component.sameChildren_comm a.components]

theorem Message.beq_comm (a b : Message) : (a == b) = (b == a) := by
  show a.same b = b.same a
  cases a with
  | surfaceUpdate a =>
      cases b with
      | surfaceUpdate b => exact Surface.same_comm a b
      | _ => rfl
  | dataModelUpdate path a =>
      cases b with
      | dataModelUpdate path' b =>
          have hpath : (path == path') = (path' == path) := BEq.comm
          have hdata : (a == b) = (b == a) := Value.same_comm a b
          show (path == path' && a == b) = (path' == path && b == a)
          rw [hpath, hdata]
      | _ => rfl
  | deleteSurface a =>
      cases b with
      | deleteSurface b => exact BEq.comm
      | _ => rfl
  | beginRendering a =>
      cases b with
      | beginRendering b => exact BEq.comm
      | _ => rfl

end SurfaceFeed
