import Mathlib.Data.List.ReduceOption
import SurfaceFeed.Proofs.Render.Expansion

/-!
# The depth of rendering

## Renderings that nest

To render a component is to render its children and then the rows of its list,
and a row is no part of the component: it is an instance that is made from the
data.  What bounds how deep these renderings nest is the nesting height of the
component, for no instance is higher than its template.  The tree that comes of
it is no higher either, however long the lists and the texts of the model are.
-/

namespace SurfaceFeed

namespace Node

mutual

def height : Node -> Nat
  | ⟨_, _, _, _, children⟩ => heightOfAll children + 1

def heightOfAll : List Node -> Nat
  | [] => 0
  | node :: nodes => max (height node) (heightOfAll nodes)

end

theorem heightOfAll_le {nodes : List Node} {bound : Nat}
    (h : forall node, node ∈ nodes -> node.height ≤ bound) : heightOfAll nodes ≤ bound := by
  induction nodes with
  | nil => exact Nat.zero_le bound
  | cons node nodes ih =>
      rw [heightOfAll]
      exact Nat.max_le.2 ⟨h node List.mem_cons_self,
        ih fun other hother => h other (List.mem_cons_of_mem node hother)⟩

end Node

namespace Component

theorem height_instantiate (template : Component) (item : Value) (position : Nat) :
    (template.instantiate item position).height = template.height :=
  height_fill _ template

theorem height_pos (c : Component) : 0 < c.height := by
  cases c
  rw [height]
  exact Nat.succ_pos _

end Component

namespace Render

open Component

/-! ## How deep the renderings nest -/

/--
The node of a component, if it is visible, by renderings that nest `depth` deep at most, this one
included.  There is no answer if they would nest deeper.
-/
def within (model : Model) : Nat -> Component -> Option (Option Node)
  | 0, _ => none
  | depth + 1, c =>
      if isVisible c.visibleIf model then
        ((c.children ++ c.rows model).mapM (within model depth)).map fun nodes =>
          some ⟨c.id, c.kind, c.props, c.content.map fun content => content.resolve model,
            nodes.reduceOption⟩
      else some none

theorem mapM_eq_some_map {α β : Type} {f : α -> Option β} {g : α -> β} {items : List α}
    (h : forall item, item ∈ items -> f item = some (g item)) :
    items.mapM f = some (items.map g) := by
  induction items with
  | nil => rfl
  | cons item items ih =>
      have hrest := ih fun other hother => h other (List.mem_cons_of_mem item hother)
      rw [List.mapM_cons, h item List.mem_cons_self, hrest]
      rfl

/-- Renderings nest no deeper than the component does. -/
theorem within_of_height_le {model : Model} {depth : Nat} {c : Component}
    (h : c.height ≤ depth) : within model depth c = some (component c model) := by
  induction depth generalizing c with
  | zero => exact absurd h (Nat.not_le_of_gt c.height_pos)
  | succ depth ih =>
      have hnodes : (c.children ++ c.rows model).mapM (within model depth) =
          some ((c.children ++ c.rows model).map fun d => component d model) :=
        mapM_eq_some_map fun d hd =>
          ih (Nat.le_of_lt_succ (Nat.lt_of_lt_of_le (height_of_mem hd) h))
      rw [within, component_eq, shown, hnodes, Option.map_some, List.reduceOption,
        List.filterMap_map, Function.id_comp]
      split <;> rfl

/-! ## How high the tree is -/

theorem height_le_of_component {c : Component} {model : Model} {node : Node}
    (h : component c model = some node) : node.height ≤ c.height := by
  induction c using expand.induct model generalizing node with
  | case1 c ih =>
      rw [component_eq] at h
      split at h
      · cases h
        -- each child is the node of a lower component
        have hchildren : Node.heightOfAll ((c.children ++ c.rows model).filterMap
            fun d => component d model) ≤ c.height - 1 := by
          apply Node.heightOfAll_le
          intro child hchild
          rcases List.mem_filterMap.1 hchild with ⟨d, hd, hnode⟩
          exact Nat.le_sub_one_of_lt (Nat.lt_of_le_of_lt (ih d hd hnode) (height_of_mem hd))
        rw [shown, Node.height]
        exact Nat.add_le_of_le_sub c.height_pos hchildren
      · cases h

/--
An instance nests as deep as its template.  So renderings nest no deeper than the component that
they begin with, and end in its node, whatever the model holds; and no tree is higher than the
component that it shows.
-/
theorem component_bounded (c : Component) (model : Model) :
    (forall (item : Value) (position : Nat),
        (c.instantiate item position).height = c.height) ∧
      (forall depth, c.height ≤ depth -> within model depth c = some (component c model)) ∧
      forall node, component c model = some node -> node.height ≤ c.height :=
  ⟨height_instantiate c, fun _ => within_of_height_le, fun _ => height_le_of_component⟩

end Render
end SurfaceFeed
