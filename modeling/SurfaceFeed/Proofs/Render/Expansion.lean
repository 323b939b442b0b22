import Mathlib.Data.List.Basic
import SurfaceFeed.Render.Tree

/-!
# Lists written out

## The rows of a list

A list stands for its rows: one instance of its template for each of its items,
after the children that are written down.  Writing out the rows of all lists of a
component, also of those that come up in an instance, leaves a component without
templates, and rendering cannot tell it from the one it came from.

An instance is no part of the component that it comes from.  What makes writing
out end is the nesting height, which filling in texts does not change.
-/

namespace SurfaceFeed

namespace Component

/-! ## Nesting height -/

mutual

def height : Component -> Nat
  | ⟨_, _, _, _, _, template, children, _⟩ =>
      max (templateHeight template) (childrenHeight children) + 1

def templateHeight : Option Component -> Nat
  | none => 0
  | some template => height template

def childrenHeight : List Component -> Nat
  | [] => 0
  | c :: cs => max (height c) (childrenHeight cs)

end

theorem height_le_childrenHeight {c : Component} {cs : List Component} (h : c ∈ cs) :
    c.height ≤ childrenHeight cs := by
  induction cs with
  | nil => cases h
  | cons first cs ih =>
      rw [childrenHeight]
      rcases List.mem_cons.1 h with rfl | hrest
      · exact Nat.le_max_left _ _
      · exact Nat.le_trans (ih hrest) (Nat.le_max_right _ _)

theorem height_of_mem_children {c child : Component} (h : child ∈ c.children) :
    child.height < c.height := by
  cases c
  rw [height]
  exact Nat.lt_succ_of_le (Nat.le_trans (height_le_childrenHeight h) (Nat.le_max_right _ _))

theorem height_of_template {c template : Component} (h : c.template = some template) :
    template.height < c.height := by
  cases c
  cases h
  rw [height, templateHeight]
  exact Nat.lt_succ_of_le (Nat.le_max_left _ _)

mutual

theorem height_fill (fill : Filling) : forall c : Component, (fill.component c).height = c.height
  | ⟨_, _, _, _, _, _, children, _⟩ => by
      rw [Filling.component, height, height, childrenHeight_fill fill children]

theorem childrenHeight_fill (fill : Filling) :
    forall cs : List Component, childrenHeight (fill.components cs) = childrenHeight cs
  | [] => rfl
  | c :: cs => by
      rw [Filling.components, childrenHeight, childrenHeight, height_fill fill c,
        childrenHeight_fill fill cs]

end

/-! ## Expansion -/

def rows (c : Component) (model : Model) : List Component :=
  match c.template with
  | none => []
  | some template =>
      (Render.itemsOf c.items model).zipIdx.map fun item =>
        template.instantiate item.1 item.2

theorem rows_of_none {c : Component} (h : c.template = none) (model : Model) :
    c.rows model = [] := by
  rw [rows, h]

/-- The values are what a list repeats its template for in a model. -/
inductive Supplied (model : Model) : Option Items -> List Value -> Prop where
  | nothing : Supplied model none []
  | inline (values : List Value) : Supplied model (some (.inline values)) values
  | array {path : String} {values : List Value} (h : model.get path = some (.array values)) :
      Supplied model (some (.path path)) values
  | noArray {path : String} (h : forall values, model.get path ≠ some (.array values)) :
      Supplied model (some (.path path)) []

theorem itemsOf_of_supplied {model : Model} {source : Option Items} {values : List Value}
    (h : Supplied model source values) : Render.itemsOf source model = values := by
  cases h with
  | nothing => exact Render.itemsOf_none model
  | inline => exact Render.itemsOf_inline values model
  | array h => exact Render.itemsOf_path_of_array h
  | noArray h => exact Render.itemsOf_path_of_not_array h

theorem rows_of_supplied {c template : Component} {model : Model} {values : List Value}
    (htemplate : c.template = some template) (h : Supplied model c.items values) :
    c.rows model = values.zipIdx.map fun item => template.instantiate item.1 item.2 := by
  rw [rows, htemplate, itemsOf_of_supplied h]

theorem height_of_mem_rows {c row : Component} {model : Model} (h : row ∈ c.rows model) :
    row.height < c.height := by
  unfold rows at h
  split at h
  · cases h
  · next template htemplate =>
      rcases List.mem_map.1 h with ⟨item, _, rfl⟩
      show (template.instantiate item.1 item.2).height < c.height
      rw [instantiate, height_fill]
      exact height_of_template htemplate

theorem height_of_mem {c d : Component} {model : Model} (h : d ∈ c.children ++ c.rows model) :
    d.height < c.height :=
  (List.mem_append.1 h).elim height_of_mem_children height_of_mem_rows

/-- The component with the rows of its lists, at any depth, written out as children. -/
def expand (model : Model) (c : Component) : Component :=
  { c with
    items := none
    template := none
    children := (c.children ++ c.rows model).attach.map fun ⟨d, _⟩ => expand model d }
termination_by c.height
decreasing_by exact height_of_mem ‹_›

theorem expand_eq (model : Model) (c : Component) :
    expand model c =
      { c with
        items := none
        template := none
        children := c.children.map (expand model) ++ (c.rows model).map (expand model) } := by
  have hchildren : ((c.children ++ c.rows model).attach.map fun d => expand model d.val) =
      (c.children ++ c.rows model).map (expand model) := List.attach_map_val
  rw [expand, ← List.map_append, ← hchildren]

inductive WrittenOut : Component -> Prop where
  | node {c : Component} (hitems : c.items = none) (htemplate : c.template = none)
      (hchildren : forall d, d ∈ c.children -> WrittenOut d) : WrittenOut c

theorem writtenOut_expand (model : Model) (c : Component) : (expand model c).WrittenOut := by
  induction c using expand.induct model with
  | case1 c ih =>
      rw [expand_eq, ← List.map_append]
      refine .node rfl rfl ?_
      intro d hd
      rcases List.mem_map.1 hd with ⟨source, hsource, rfl⟩
      exact ih source hsource

end Component

namespace Render

open Component

/-! ## Rendering by rows -/

theorem instances_eq (render : Filling -> Option Node) (position : Nat) (items : List Value) :
    instances render position items =
      (items.zipIdx position).filterMap fun item => render (Filling.ofItem item.1 item.2) := by
  induction items generalizing position with
  | nil => rfl
  | cons item items ih =>
      rw [instances, ih, List.zipIdx_cons]
      cases hrow : render (Filling.ofItem item position) with
      | none =>
          rw [List.filterMap_cons_none (by exact hrow)]
          rfl
      | some node =>
          rw [List.filterMap_cons_some (by exact hrow)]
          rfl

theorem components_eq (cs : List Component) (model : Model) :
    components cs model = cs.filterMap fun c => component c model := by
  induction cs with
  | nil => rfl
  | cons c cs ih =>
      rw [components, componentsUnder, List.filterMap_cons]
      show (component c model).toList ++ components cs model = _
      rw [ih]
      cases component c model <;> rfl

theorem templateNodes_eq (c : Component) (model : Model) :
    templateNodes model (itemsOf c.items model) c.template =
      (c.rows model).filterMap fun row => component row model := by
  rw [rows]
  cases c.template with
  | none => rfl
  | some template =>
      rw [templateNodes, instances_eq, List.filterMap_map]
      apply List.filterMap_congr
      intro item _
      exact componentUnder_ofItem model template item.1 item.2

def shown (c : Component) (model : Model) : Node :=
  ⟨c.id, c.kind, c.props, c.content.map fun content => content.resolve model,
    (c.children ++ c.rows model).filterMap fun d => component d model⟩

theorem component_eq (c : Component) (model : Model) :
    component c model = if isVisible c.visibleIf model then some (shown c model) else none := by
  have hid : c.id.map Filling.none = c.id := Option.map_id_apply
  have hvisible : c.visibleIf.map Filling.none.visibleIf = c.visibleIf := by
    cases c.visibleIf <;> simp
  have hitems : c.items.map Filling.none.items = c.items := by
    cases c.items <;> simp
  have hcontent : c.content.map Filling.none.content = c.content := Option.map_id_apply
  rw [shown, List.filterMap_append, ← components_eq, ← templateNodes_eq]
  rcases c with ⟨id, kind, visible, shown, source, template, children, props⟩
  rw [component, componentUnder, hid, hvisible, hitems, hcontent, Filling.jsonFields_none]
  rfl

theorem component_expand_eq (c : Component) (model : Model) :
    component (expand model c) model = component c model := by
  induction c using expand.induct model with
  | case1 c ih =>
      have hnodes : ((c.children ++ c.rows model).map (expand model)).filterMap
          (fun d => component d model) =
            (c.children ++ c.rows model).filterMap fun d => component d model := by
        rw [List.filterMap_map]
        exact List.filterMap_congr ih
      have htemplate : (expand model c).template = none := by
        rw [expand_eq]
      rw [component_eq c, component_eq (expand model c), shown, shown,
        rows_of_none htemplate, List.append_nil, ← hnodes, List.map_append, expand_eq]

/--
Writing out the lists of a component leaves no list, and does not change what it
is rendered as: under its node, if it is visible, stand the nodes of its own
children and then, in the order of the items, those of its rows, without the
ones that are not visible.  The items are those that are given with the list, or
those of the array at its path; without an array there is no row.
-/
theorem component_expand (c : Component) (model : Model) :
    (expand model c).WrittenOut ∧ component (expand model c) model = component c model ∧
      (component c model).map Node.children =
        (if isVisible c.visibleIf model then
          some ((c.children.filterMap fun child => component child model) ++
            (c.rows model).filterMap fun row => component row model)
        else none) ∧
      (c.template = none -> c.rows model = []) ∧
      (forall template values, c.template = some template -> Supplied model c.items values ->
        c.rows model = values.zipIdx.map fun item => template.instantiate item.1 item.2) := by
  refine ⟨writtenOut_expand model c, component_expand_eq c model, ?_, ?_, ?_⟩
  · rw [component_eq, ← List.filterMap_append]
    split
    · rfl
    · rfl
  · intro htemplate
    exact rows_of_none htemplate model
  · intro template values htemplate hitems
    exact rows_of_supplied htemplate hitems

end Render
end SurfaceFeed
