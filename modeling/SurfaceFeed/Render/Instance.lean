import SurfaceFeed.Component
import SurfaceFeed.Placeholder

/-!
# Instances of a template

A list repeats its template once for each item.  In an instance the texts of the
template that may name the item are filled in: its id, its paths, and the
strings among its properties, also those of its children.  A template inside the
template is left alone, for its placeholders are those of its own items.
-/

namespace SurfaceFeed

/-- What becomes of the texts of a template. -/
abbrev Filling := String -> String

namespace Filling

/-- Texts that belong to no list item stay as they are. -/
def none : Filling := fun text => text

/-- The texts for an item at a position of its list. -/
def ofItem (item : Value) (position : Nat) : Filling :=
  fun text => Placeholder.fill item position text

/-! ## The parts of a component -/

mutual

def json (fill : Filling) : Json -> Json
  | .text s => .text (fill s)
  | .array items => .array (jsonItems fill items)
  | .object fields => .object (jsonFields fill fields)
  | scalar => scalar

def jsonItems (fill : Filling) : List Json -> List Json
  | [] => []
  | item :: items => json fill item :: jsonItems fill items

def jsonFields (fill : Filling) : List (String × Json) -> List (String × Json)
  | [] => []
  | (name, value) :: fields => (name, json fill value) :: jsonFields fill fields

end

def visibleIf (fill : Filling) : VisibleIf -> VisibleIf
  | .path path => .path (fill path)
  | .condition c => .condition { c with path := fill c.path }

def content (fill : Filling) (c : Content) : Content :=
  { c with path := fill c.path }

def items (fill : Filling) : Items -> Items
  | .path path => .path (fill path)
  | .inline values => .inline values

mutual

def component (fill : Filling) : Component -> Component
  | ⟨id, kind, visible, shown, source, template, children, props⟩ =>
      ⟨id.map fill, kind, visible.map fill.visibleIf, shown.map fill.content,
        source.map fill.items, template, components fill children,
        fill.jsonFields props⟩

def components (fill : Filling) : List Component -> List Component
  | [] => []
  | c :: cs => component fill c :: components fill cs

end

/-! ## Texts that stay as they are -/

mutual

@[simp] theorem json_none : forall value : Json, none.json value = value
  | .null | .bool _ | .int _ | .float _ | .text _ => rfl
  | .array items => by rw [json, jsonItems_none items]
  | .object fields => by rw [json, jsonFields_none fields]

@[simp] theorem jsonItems_none : forall items : List Json, none.jsonItems items = items
  | [] => rfl
  | item :: items => by rw [jsonItems, json_none item, jsonItems_none items]

@[simp] theorem jsonFields_none : forall fields : List (String × Json), none.jsonFields fields = fields
  | [] => rfl
  | (name, value) :: fields => by rw [jsonFields, json_none value, jsonFields_none fields]

end

@[simp] theorem visibleIf_none (v : VisibleIf) : none.visibleIf v = v := by
  cases v <;> rfl

@[simp] theorem items_none (i : Items) : none.items i = i := by
  cases i <;> rfl

end Filling

namespace Component

/-- The instance of a template for an item at a position of its list. -/
def instantiate (template : Component) (item : Value) (position : Nat) : Component :=
  (Filling.ofItem item position).component template

end Component
end SurfaceFeed
