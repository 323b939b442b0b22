import SurfaceFeed.Proofs.Placeholder
import SurfaceFeed.Proofs.Pointer
import SurfaceFeed.Proofs.Render.Expansion

/-!
# Rows that show their items

## Paths through the position

The rows of a list do not hold their items.  A row shows its item because its
content names the path of the list and, behind it, the placeholder of the
position: filled in, this is the pointer to the item, and what follows it is the
pointer to a field of the item.
-/

namespace SurfaceFeed
namespace Render

open Component

def positionText : String := "\x7bindex\x7d"

/-! ## Rows -/

theorem rows_getElem? {c template : Component} (htemplate : c.template = some template)
    (model : Model) (position : Nat) :
    (c.rows model)[position]? = (itemsOf c.items model)[position]?.map fun item =>
      template.instantiate item position := by
  rw [rows, htemplate]
  dsimp only
  rw [List.getElem?_map, List.getElem?_zipIdx, Option.map_map, Nat.zero_add]
  rfl

theorem length_rows {c template : Component} (htemplate : c.template = some template)
    (model : Model) : (c.rows model).length = (itemsOf c.items model).length := by
  rw [rows, htemplate]
  dsimp only
  rw [List.length_map, List.length_zipIdx]

theorem visibleIf_instantiate (template : Component) (item : Value) (position : Nat) :
    (template.instantiate item position).visibleIf =
      template.visibleIf.map (Filling.ofItem item position).visibleIf := by
  cases template
  rfl

theorem content_instantiate (template : Component) (item : Value) (position : Nat) :
    (template.instantiate item position).content =
      template.content.map (Filling.ofItem item position).content := by
  cases template
  rfl

theorem filterMap_component {cs : List Component} {model : Model}
    (h : forall c, c ∈ cs -> c.visibleIf = none) :
    cs.filterMap (fun c => component c model) = cs.map fun c => shown c model := by
  rw [← List.filterMap_eq_map]
  apply List.filterMap_congr
  intro c hc
  rw [component_eq, h c hc]
  rfl

theorem children_of_rows {list template : Component} {model : Model}
    (hchildren : list.children = []) (htemplate : list.template = some template)
    (halways : template.visibleIf = none) :
    (shown list model).children = (list.rows model).map fun row => shown row model := by
  have hrows : forall row, row ∈ list.rows model -> row.visibleIf = none := by
    intro row hrow
    rcases List.mem_iff_getElem?.1 hrow with ⟨position, hposition⟩
    rw [rows_getElem? htemplate] at hposition
    rcases Option.map_eq_some_iff.1 hposition with ⟨item, _, hitem⟩
    rw [← hitem, visibleIf_instantiate, halways]
    rfl
  rw [shown, hchildren, List.nil_append, filterMap_component hrows]

/-! ## What a row shows -/

section Bound

variable {model : Model} {pointer : String} {p : Pointer} {items : List Value}
  (hparse : Pointer.parse pointer = .ok p) (hroot : p.isRoot = false)
  (hitems : model.get pointer = some (.array items))

include hparse hroot hitems

/-- The pointer of a list with an index behind it is the pointer of the item. -/
theorem get_position (position : Nat) :
    model.get (pointer ++ "/" ++ toString position) = items[position]? := by
  have hchild := Value.get_push hparse hroot hitems (toString position)
  rw [Pointer.escapeSegment_toString, Value.child?_array_toString] at hchild
  exact hchild

theorem get_position_field {position : Nat} {fields : List (String × Value)}
    (hitem : items[position]? = some (.object fields)) (field : String) :
    model.get (pointer ++ "/" ++ toString position ++ "/" ++ Pointer.escapeSegment field) =
      Fields.find? fields field := by
  have hparse' := Pointer.parse_push hparse hroot (toString position)
  rw [Pointer.escapeSegment_toString] at hparse'
  have hroot' : (p.push (toString position)).isRoot = false := by
    simp [Pointer.isRoot, Pointer.push]
  exact Value.get_push hparse' hroot' ((get_position hparse hroot hitems position).trans hitem) field

end Bound

theorem content_row {template : Component} {path : String} (model : Model)
    (hcontent : template.content = some ⟨path, none⟩) (item : Value) (position : Nat) :
    (shown (template.instantiate item position) model).content =
      some ((model.get (Placeholder.fill item position path)).getD .null) := by
  show ((template.instantiate item position).content).map _ = _
  rw [content_instantiate, hcontent]
  rfl

theorem fill_position {pointer : String} (hplain : Placeholder.occursIn pointer = false)
    (item : Value) (position : Nat) :
    Placeholder.fill item position (pointer ++ "/" ++ positionText) =
      pointer ++ "/" ++ toString position := by
  rw [Placeholder.fill_append_slash, Placeholder.fill_of_plain hplain, positionText,
    Placeholder.fill_index]

/--
A list whose items stand at a path of the model, and whose template is always
visible, has exactly one child for each item.  If the content of the template is
the path and the position, each child shows its item; if it is the path, the
position and the escaped name of a field, each child of an object shows this
field of the object, or null if there is none.
-/
theorem component_showsItems {model : Model} {pointer : String} {p : Pointer}
    {items : List Value} {list template : Component}
    (hparse : Pointer.parse pointer = .ok p) (hroot : p.isRoot = false)
    (hplain : Placeholder.occursIn pointer = false)
    (hitems : model.get pointer = some (.array items))
    (hchildren : list.children = []) (hvisible : list.visibleIf = none)
    (hsource : list.items = some (.path pointer)) (htemplate : list.template = some template)
    (halways : template.visibleIf = none) :
    exists node, component list model = some node ∧ node.children.length = items.length ∧
      (template.content = some ⟨pointer ++ "/" ++ positionText, none⟩ ->
        forall position : Nat,
          node.children[position]?.bind Node.content = items[position]?) ∧
      (forall field, Placeholder.occursIn (Pointer.escapeSegment field) = false ->
        template.content =
            some ⟨pointer ++ "/" ++ positionText ++ "/" ++ Pointer.escapeSegment field, none⟩ ->
          forall (position : Nat) (fields : List (String × Value)),
            items[position]? = some (.object fields) ->
            node.children[position]?.bind Node.content =
              some ((Fields.find? fields field).getD .null)) := by
  have hresolved : itemsOf list.items model = items := by
    rw [hsource]
    exact itemsOf_path_of_array hitems
  have hrows : (shown list model).children = (list.rows model).map fun row => shown row model :=
    children_of_rows hchildren htemplate halways
  have hchild : forall position : Nat, (shown list model).children[position]? =
      items[position]?.map fun item => shown (template.instantiate item position) model := by
    intro position
    rw [hrows, List.getElem?_map, rows_getElem? htemplate, hresolved, Option.map_map]
    rfl
  refine ⟨shown list model, ?_, ?_, ?_, ?_⟩
  · rw [component_eq, hvisible]
    rfl
  · rw [hrows, List.length_map, length_rows htemplate, hresolved]
  · intro hcontent position
    rw [hchild]
    cases hitem : items[position]? with
    | none => rfl
    | some item =>
        show (shown (template.instantiate item position) model).content = some item
        rw [content_row model hcontent, fill_position hplain,
          get_position hparse hroot hitems, hitem]
        rfl
  · intro field hfield hcontent position fields hitem
    rw [hchild, hitem]
    show (shown (template.instantiate (.object fields) position) model).content = _
    rw [content_row model hcontent, Placeholder.fill_append_slash, fill_position hplain,
      Placeholder.fill_of_plain hfield, get_position_field hparse hroot hitems hitem]

theorem component_showsItems_of_rows :
    let model : Model :=
      ⟨.object [("rows", .array [.object [("a/b", .int 1)], .object []])], rfl⟩
    let listOf (path : String) : Component :=
      { Component.blank "List" with
        items := some (.path "/rows")
        template := some { Component.blank "Row" with content := some ⟨path, none⟩ } }
    (exists node, component (listOf "/rows/\x7bindex\x7d") model = some node ∧
      node.children.length = 2 ∧
      node.children[0]?.bind Node.content = some (.object [("a/b", .int 1)])) ∧
    (exists node, component (listOf "/rows/\x7bindex\x7d/a~1b") model = some node ∧
      node.children.length = 2 ∧ node.children[0]?.bind Node.content = some (.int 1) ∧
      node.children[1]?.bind Node.content = some .null) := by
  intro model listOf
  have hparse : Pointer.parse "/rows" = .ok ⟨["rows"]⟩ := rfl
  have hplain : Placeholder.occursIn "/rows" = false := by decide
  have hitems : model.get "/rows" = some (.array [.object [("a/b", .int 1)], .object []]) := rfl
  have hsource : forall path, (listOf path).items = some (.path "/rows") := fun _ => rfl
  have htemplate : forall path, (listOf path).template =
      some { Component.blank "Row" with content := some ⟨path, none⟩ } := fun _ => rfl
  constructor
  · rcases component_showsItems hparse rfl hplain hitems rfl rfl
        (hsource "/rows/{index}") (htemplate _) rfl with
      ⟨node, hnode, hlength, hitem, _⟩
    exact ⟨node, hnode, hlength, hitem rfl 0⟩
  · rcases component_showsItems hparse rfl hplain hitems rfl rfl
        (hsource "/rows/{index}/a~1b") (htemplate _) rfl with
      ⟨node, hnode, hlength, _, hfield⟩
    have hname : Placeholder.occursIn (Pointer.escapeSegment "a/b") = false := by decide
    exact ⟨node, hnode, hlength, hfield "a/b" hname rfl 0 _ rfl, hfield "a/b" hname rfl 1 _ rfl⟩

end Render
end SurfaceFeed
