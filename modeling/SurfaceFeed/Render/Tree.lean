import SurfaceFeed.Render.Instance
import SurfaceFeed.Render.Node
import SurfaceFeed.Session

/-!
# Rendering

## From a surface to a tree

A component is rendered under the filling of the template that it comes from.
Its children keep that filling, and the instances of its own template get the
fillings of its items.  So rendering follows the description alone, whatever the
model holds, and the node of a component under a filling is the node of the
component that is filled in.
-/

namespace SurfaceFeed
namespace Render

/-- The items that a list repeats its template for: none unless they are a list. -/
def itemsOf (source : Option Items) (model : Model) : List Value :=
  match source with
  | none => []
  | some (.inline values) => values
  | some (.path path) => ((model.get path).bind Value.items?).getD []

@[simp] theorem itemsOf_none (model : Model) : itemsOf none model = [] := rfl

@[simp] theorem itemsOf_inline (values : List Value) (model : Model) :
    itemsOf (some (.inline values)) model = values := rfl

theorem itemsOf_path_of_array {path : String} {model : Model} {values : List Value}
    (h : model.get path = some (.array values)) : itemsOf (some (.path path)) model = values := by
  rw [itemsOf, h]
  rfl

theorem itemsOf_path_of_not_array {path : String} {model : Model}
    (h : forall values, model.get path ≠ some (.array values)) :
    itemsOf (some (.path path)) model = [] := by
  rw [itemsOf]
  cases hget : model.get path with
  | none => rfl
  | some value =>
      cases value with
      | array values => exact absurd hget (h values)
      | _ => rfl

def isVisible (condition : Option VisibleIf) (model : Model) : Bool :=
  match condition with
  | none => true
  | some condition => condition.holds model

/-- The nodes of the visible instances for items that begin at `position`. -/
def instances (render : Filling -> Option Node) : Nat -> List Value -> List Node
  | _, [] => []
  | position, item :: items =>
      (render (Filling.ofItem item position)).toList ++
        instances render (position + 1) items

mutual

/-- The node of a component under a filling, if it is visible. -/
def componentUnder (model : Model) (fill : Filling) : Component -> Option Node
  | ⟨id, kind, visible, shown, source, template, children, props⟩ =>
      if isVisible (visible.map fill.visibleIf) model then
        some
          ⟨id.map fill, kind, fill.jsonFields props,
            (shown.map fill.content).map fun c => c.resolve model,
            componentsUnder model fill children ++
              templateNodes model (itemsOf (source.map fill.items) model) template⟩
      else none

def componentsUnder (model : Model) (fill : Filling) : List Component -> List Node
  | [] => []
  | c :: cs => (componentUnder model fill c).toList ++ componentsUnder model fill cs

def templateNodes (model : Model) (values : List Value) : Option Component -> List Node
  | none => []
  | some template => instances (fun fill => componentUnder model fill template) 0 values

end

def component (c : Component) (model : Model) : Option Node :=
  componentUnder model Filling.none c

def components (cs : List Component) (model : Model) : List Node :=
  componentsUnder model Filling.none cs

/-! ## Filling before rendering

Rendering under a filling is rendering what has been filled in.
-/

mutual

theorem componentUnder_eq (model : Model) (fill : Filling) :
    forall c : Component, componentUnder model fill c = component (fill.component c) model
  | ⟨id, kind, visible, shown, source, template, children, props⟩ => by
      have hvisible : (visible.map fill.visibleIf).map Filling.none.visibleIf =
          visible.map fill.visibleIf := by
        cases visible <;> simp
      have hsource : (source.map fill.items).map Filling.none.items =
          source.map fill.items := by
        cases source <;> simp
      have hid : (id.map fill).map Filling.none = id.map fill := by
        cases id <;> rfl
      have hshown : (shown.map fill.content).map Filling.none.content =
          shown.map fill.content := by
        cases shown <;> rfl
      rw [component, Filling.component, componentUnder, componentUnder, hvisible, hsource,
        hid, hshown, Filling.jsonFields_none, componentsUnder_eq model fill children]
      rfl

theorem componentsUnder_eq (model : Model) (fill : Filling) :
    forall cs : List Component,
      componentsUnder model fill cs = components (fill.components cs) model
  | [] => rfl
  | c :: cs => by
      rw [components, Filling.components, componentsUnder, componentsUnder,
        componentUnder_eq model fill c, componentsUnder_eq model fill cs]
      rfl

end

/-- The instance of a template for an item is what the template renders as for it. -/
theorem componentUnder_ofItem (model : Model) (template : Component) (item : Value)
    (position : Nat) :
    componentUnder model (Filling.ofItem item position) template =
      component (template.instantiate item position) model :=
  componentUnder_eq model _ template

/-! ## Surfaces -/

def titleProps : Option String -> List (String × Json)
  | none => []
  | some title => [("title", .text title)]

def surface (s : Surface) (model : Model) : Node :=
  ⟨some s.id, "Surface", titleProps s.title, none, components s.components model⟩

end Render

namespace Session

/-- The tree of the active surface, if there is one. -/
def render (s : Session) : Option Node :=
  s.surface.map fun surface => Render.surface surface s.model

end Session
end SurfaceFeed
