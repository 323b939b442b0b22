import SurfaceFeed.Message.Basic
import SurfaceFeed.Proofs.Value

/-!
# Messages of stored documents

## What a decoded message holds

The values of a message that comes from stored data have ascending fields and
finite floats, and its components keep, as properties, ascending fields of
other names than their own.  Such a message equals itself, which a message with
an undefined number does not.
-/

namespace SurfaceFeed

namespace Value

/-- A value as it comes from a stored document. -/
structure Stored (value : Value) : Prop where
  wellFormed : value.WellFormed
  finite : value.Finite

theorem stored_ofJson {json : Json} (h : json.Stored) : (ofJson json).Stored :=
  ⟨wellFormed_ofJson h.wellFormed, finite_ofJson h.wellFormed h.bounded⟩

theorem Stored.ofJson_sorted {value : Value} (h : value.Stored) :
    ofJson value.toJson.sorted = value := by
  rw [(wellFormed_toJson h.wellFormed h.finite).sorted_eq, ofJson_toJson h.finite]

mutual

theorem Finite.same_self {value : Value} (h : value.Finite) : same value value = true := by
  cases value with
  | null => rfl
  | bool b => exact BEq.refl b
  | int n => exact BEq.refl n
  | float f => exact Decimal.beq_self_of_isFinite h
  | text s => exact BEq.refl s
  | array items => exact sameItems_self h
  | object fields => exact sameFields_self h

theorem sameItems_self {items : List Value} (h : FiniteItems items) :
    sameItems items items = true := by
  cases items with
  | nil => rfl
  | cons item items =>
      rw [sameItems, h.1.same_self, sameItems_self h.2]
      rfl

theorem sameFields_self {fields : List (String × Value)} (h : FiniteFields fields) :
    sameFields fields fields = true := by
  cases fields with
  | nil => rfl
  | cons field fields =>
      rw [sameFields, BEq.refl field.1, h.1.same_self, sameFields_self h.2]
      rfl

end

end Value

namespace Json

mutual

theorem WellFormed.same_self {json : Json} (h : json.WellFormed) : same json json = true := by
  cases json with
  | null => rfl
  | bool b => exact BEq.refl b
  | int n => exact BEq.refl n
  | float f => exact Decimal.beq_self_of_isFinite h
  | text s => exact BEq.refl s
  | array items => exact sameItems_self h
  | object fields => exact sameFields_self h.2

theorem sameItems_self {items : List Json} (h : WellFormedItems items) :
    sameItems items items = true := by
  cases items with
  | nil => rfl
  | cons item items =>
      rw [sameItems, h.1.same_self, sameItems_self h.2]
      rfl

theorem sameFields_self {fields : List (String × Json)} (h : WellFormedFields fields) :
    sameFields fields fields = true := by
  cases fields with
  | nil => rfl
  | cons field fields =>
      rw [sameFields, BEq.refl field.1, h.1.same_self, sameFields_self h.2]
      rfl

end

end Json

theorem sameOption_self {α : Type} {same : α -> α -> Bool} {x : Option α}
    (h : forall a, x = some a -> same a a = true) : sameOption same x x = true := by
  cases x with
  | none => rfl
  | some a => exact h a rfl

/-! ## Conditions and items -/

def StoredOperand (operand : Option Value) : Prop :=
  forall value, operand = some value -> value.Stored

theorem StoredOperand.same_self {operand : Option Value} (h : StoredOperand operand) :
    sameOption Value.same operand operand = true := by
  apply sameOption_self
  intro value hvalue
  exact (h value hvalue).finite.same_self

structure Condition.Stored (c : Condition) : Prop where
  eq : StoredOperand c.eq
  neq : StoredOperand c.neq
  gt : StoredOperand c.gt
  gte : StoredOperand c.gte
  lt : StoredOperand c.lt
  lte : StoredOperand c.lte

theorem Condition.Stored.same_self {c : Condition} (h : c.Stored) : c.same c = true := by
  unfold Condition.same
  simp [h.eq.same_self, h.neq.same_self, h.gt.same_self, h.gte.same_self, h.lt.same_self,
    h.lte.same_self]

def VisibleIf.Stored : VisibleIf -> Prop
  | path _ => True
  | condition c => c.Stored

theorem VisibleIf.Stored.same_self {v : VisibleIf} (h : v.Stored) : v.same v = true := by
  cases v with
  | path pointer => exact BEq.refl pointer
  | condition c => exact Condition.Stored.same_self h

def Items.Stored : Items -> Prop
  | path _ => True
  | inline values => Value.WellFormedItems values ∧ Value.FiniteItems values

theorem Items.Stored.same_self {items : Items} (h : items.Stored) : items.same items = true := by
  cases items with
  | path pointer => exact BEq.refl pointer
  | inline values => exact Value.sameItems_self h.2

/-! ## Components -/

namespace Component

def ownNames : List String :=
  ["id", "type", "visibleIf", "contentExpr", "items", "template", "children"]

def isProp (name : String) : Bool :=
  !ownNames.contains name

structure StoredProps (props : List (String × Json)) : Prop where
  ascending : Fields.Ascending props
  wellFormed : Json.WellFormedFields props
  isProp : forall field, field ∈ props -> isProp field.1 = true

mutual

def Stored : Component -> Prop
  | ⟨_, _, visible, _, source, template, children, props⟩ =>
      (forall v, visible = some v -> v.Stored) ∧ (forall items, source = some items -> items.Stored) ∧
        StoredTemplate template ∧ StoredChildren children ∧ StoredProps props

def StoredTemplate : Option Component -> Prop
  | none => True
  | some template => Stored template

def StoredChildren : List Component -> Prop
  | [] => True
  | child :: children => Stored child ∧ StoredChildren children

end

mutual

theorem Stored.same_self {c : Component} (h : c.Stored) : same c c = true := by
  cases c with
  | mk id kind visible content items template children props =>
      rcases h with ⟨hvisible, hitems, htemplate, hchildren, hprops⟩
      have hv : sameOption VisibleIf.same visible visible = true :=
        sameOption_self fun v hv => (hvisible v hv).same_self
      have hi : sameOption Items.same items items = true :=
        sameOption_self fun i hi => (hitems i hi).same_self
      have hown : sameOwn ⟨id, kind, visible, content, items, none, [], props⟩
          ⟨id, kind, visible, content, items, template, children, props⟩ = true := by
        simp [sameOwn, hv, hi, Json.sameFields_self hprops.wellFormed]
      simp [same, hown, sameTemplate_self htemplate, sameChildren_self hchildren]

theorem sameTemplate_self {template : Option Component} (h : StoredTemplate template) :
    sameTemplate template template = true := by
  cases template with
  | none => rfl
  | some template => exact Stored.same_self h

theorem sameChildren_self {children : List Component} (h : StoredChildren children) :
    sameChildren children children = true := by
  cases children with
  | nil => rfl
  | cons child children =>
      rw [sameChildren, Stored.same_self h.1, sameChildren_self h.2]
      rfl

end

end Component

/-! ## Messages -/

namespace Message

def Stored : Message -> Prop
  | surfaceUpdate surface => Component.StoredChildren surface.components
  | dataModelUpdate _ data => data.Stored
  | deleteSurface _ | beginRendering _ => True

theorem Stored.beq_self {m : Message} (h : m.Stored) : (m == m) = true := by
  show m.same m = true
  cases m with
  | surfaceUpdate surface =>
      show surface.same surface = true
      unfold Surface.same
      rw [BEq.refl surface.id, BEq.refl surface.title, Component.sameChildren_self h]
      rfl
  | dataModelUpdate path data =>
      have hdata : (data == data) = true := Value.Finite.same_self h.finite
      show (path == path && data == data) = true
      rw [BEq.refl path, hdata]
      rfl
  | deleteSurface id => exact BEq.refl id
  | beginRendering id => exact BEq.refl id

end Message
end SurfaceFeed
