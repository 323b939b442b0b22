import Mathlib.Data.List.Forall2
import SurfaceFeed.Proofs.Text.Lines
import SurfaceFeed.Render.Tree

/-!
# The outline of a tree

## Nodes and lines

The nodes of a tree are shown in pre-order, each with an indentation of two
spaces for each level above it, its kind, and a line feed at the end.  What is
shown of properties are documents, which have no line feed.  But kinds, ids,
names of properties and texts are shown as they are, so each line feed in one of
them begins a line that is no node's.
-/

namespace SurfaceFeed

namespace Node

open Text

mutual

def preorder (depth : Nat) : Node -> List (Nat × Node)
  | ⟨id, kind, props, content, children⟩ =>
      (depth, ⟨id, kind, props, content, children⟩) :: preorderOfAll (depth + 1) children

def preorderOfAll (depth : Nat) : List Node -> List (Nat × Node)
  | [] => []
  | node :: nodes => preorder depth node ++ preorderOfAll depth nodes

end

def row (depth : Nat) (node : Node) : String :=
  line depth node.id node.kind node.props node.content

/-- The texts of a node that are shown as they are. -/
def plainTexts (node : Node) : List String :=
  node.kind :: (node.id.toList ++
    ((node.props.filter fun prop => prop.2.isScalar).map Prod.fst ++
      (node.content.bind Value.text?).toList))

/--
A text with one line for each of some nodes and no other line, where the line of a node begins
with the indentation for its depth and with its kind.
-/
def OneLineEach (nodes : List (Nat × Node)) (text : String) : Prop :=
  exists rows : List (List Char),
    text.toList = rows.flatMap (· ++ ['\n']) ∧ (forall row, row ∈ rows -> '\n' ∉ row) ∧
      List.Forall₂
        (fun node row => List.replicate (2 * node.1) ' ' ++ node.2.kind.toList <+: row)
        nodes rows

/-! ## The rows of an outline -/

mutual

theorem lines_eq_map (depth : Nat) :
    forall node : Node, lines depth node = (preorder depth node).map fun n => n.2.row n.1
  | ⟨_, _, _, _, children⟩ => by
      rw [lines, preorder, List.map_cons, linesOfAll_eq_map (depth + 1) children]
      rfl

theorem linesOfAll_eq_map (depth : Nat) :
    forall nodes : List Node,
      linesOfAll depth nodes = (preorderOfAll depth nodes).map fun n => n.2.row n.1
  | [] => rfl
  | node :: nodes => by
      rw [linesOfAll, preorderOfAll, List.map_append, lines_eq_map depth node,
        linesOfAll_eq_map depth nodes]

end

theorem toList_outline (node : Node) :
    node.outline.toList =
      ((node.preorder 0).map fun n => (n.2.row n.1).toList).flatMap (· ++ ['\n']) := by
  have hend : forall row : String, (row ++ "\n").toList = row.toList ++ ['\n'] :=
    fun _ => String.toList_append
  simp only [outline, String.toList_join, lines_eq_map, List.flatMap_map, hend]

theorem indented_row (depth : Nat) (node : Node) :
    List.replicate (2 * depth) ' ' ++ node.kind.toList <+: (node.row depth).toList := by
  simp [row, line]

/-! ## Line feeds -/

@[simp] theorem breaks_idText (id : Option String) :
    breaks (idText id) = (id.toList.map breaks).sum := by
  cases id with
  | none => rfl
  | some id =>
      have hhash : breaks "#" = 0 := rfl
      simp [idText, hhash]

@[simp] theorem breaks_propText (prop : String × Json) :
    breaks (propText prop) = if prop.2.isScalar then breaks prop.1 else 0 := by
  rw [propText]
  split
  · have hspace : breaks " " = 0 := rfl
    have hequals : breaks "=" = 0 := rfl
    simp [hspace, hequals]
  · rfl

@[simp] theorem breaks_propTexts (props : List (String × Json)) :
    breaks (String.join (props.map propText)) =
      (((props.filter fun prop => prop.2.isScalar).map Prod.fst).map breaks).sum := by
  rw [breaks_join, List.map_map]
  induction props with
  | nil => rfl
  | cons prop props ih =>
      rw [List.map_cons, List.sum_cons, ih, Function.comp_apply, breaks_propText, List.filter_cons]
      split <;> simp

@[simp] theorem breaks_contentText (content : Option Value) :
    breaks (contentText content) = ((content.bind Value.text?).toList.map breaks).sum := by
  cases content with
  | none => rfl
  | some value =>
      have hequals : breaks " = " = 0 := rfl
      simp [contentText, hequals, Value.breaks_display]

theorem breaks_row (depth : Nat) (node : Node) :
    breaks (node.row depth) = (node.plainTexts.map breaks).sum := by
  have hindent : breaks (String.ofList (List.replicate (2 * depth) ' ')) = 0 := by
    rw [breaks_ofList, List.count_replicate]
    rfl
  simp only [row, line, plainTexts, breaks_append, breaks_idText, breaks_propTexts,
    breaks_contentText, hindent, List.map_cons, List.map_append, List.sum_cons, List.sum_append]
  omega

theorem count_rows (rows : List (List Char)) :
    (rows.flatMap (· ++ ['\n'])).count '\n' = rows.length + (rows.map (·.count '\n')).sum := by
  induction rows with
  | nil => rfl
  | cons row rows ih =>
      have hend : (row ++ ['\n']).count '\n' = row.count '\n' + 1 := List.count_append
      simp only [List.flatMap_cons, List.count_append, ih, hend, List.length_cons, List.map_cons,
        List.sum_cons]
      omega

/-- An outline has a line for each node, and one more for each line feed of a plain text. -/
theorem breaks_outline (node : Node) :
    breaks node.outline = (node.preorder 0).length +
      ((node.preorder 0).map fun n => (n.2.plainTexts.map breaks).sum).sum := by
  rw [breaks, toList_outline, count_rows, List.length_map, List.map_map]
  congr 2
  apply List.map_congr_left
  intro n _
  exact breaks_row n.1 n.2

/-! ## One line for each node -/

theorem OneLineEach.breaks_eq {nodes : List (Nat × Node)} {text : String}
    (h : OneLineEach nodes text) : breaks text = nodes.length := by
  rcases h with ⟨rows, htext, hrows, heach⟩
  have hnone : (rows.map (·.count '\n')).sum = 0 := by
    rw [List.sum_eq_zero_iff_forall_eq_nat]
    intro n hn
    rcases List.mem_map.1 hn with ⟨row, hrow, rfl⟩
    exact List.count_eq_zero.2 (hrows row hrow)
  rw [breaks, htext, count_rows, hnone, heach.length_eq, Nat.add_zero]

theorem breaks_plainTexts_iff (node : Node) :
    (node.plainTexts.map breaks).sum = 0 ↔
      forall text, text ∈ node.plainTexts -> '\n' ∉ text.toList := by
  rw [List.sum_eq_zero_iff_forall_eq_nat, List.forall_mem_map]
  simp only [breaks_eq_zero_iff]

theorem oneLineEach_iff (node : Node) :
    OneLineEach (node.preorder 0) node.outline ↔
      forall n, n ∈ node.preorder 0 -> forall text, text ∈ n.2.plainTexts -> '\n' ∉ text.toList := by
  constructor
  · intro h n hn
    have hsum := (breaks_outline node).symm.trans h.breaks_eq
    have hzero := Nat.add_eq_left.1 hsum
    rw [List.sum_eq_zero_iff_forall_eq_nat] at hzero
    exact (breaks_plainTexts_iff n.2).1 (hzero _ (List.mem_map_of_mem hn))
  · intro h
    refine ⟨(node.preorder 0).map fun n => (n.2.row n.1).toList, toList_outline node, ?_, ?_⟩
    · intro row hrow
      rcases List.mem_map.1 hrow with ⟨n, hn, rfl⟩
      apply breaks_eq_zero_iff.1
      rw [breaks_row]
      exact (breaks_plainTexts_iff n.2).2 (h n hn)
    · rw [List.forall₂_map_right_iff, List.forall₂_same]
      exact fun n _ => indented_row n.1 n.2

/--
The outline of a tree shows its nodes in pre-order, each with its indentation, its kind and a line
feed at its end.  It has as many lines as the tree has nodes and as its plain texts have line feeds
together, so it has one line for each node just if no plain text has a line feed.
-/
theorem outline_lines (node : Node) :
    node.outline.toList =
        ((node.preorder 0).map fun n => (n.2.row n.1).toList).flatMap (· ++ ['\n']) ∧
      (forall n, n ∈ node.preorder 0 ->
        List.replicate (2 * n.1) ' ' ++ n.2.kind.toList <+: (n.2.row n.1).toList) ∧
      breaks node.outline = (node.preorder 0).length +
        ((node.preorder 0).map fun n => (n.2.plainTexts.map breaks).sum).sum ∧
      (OneLineEach (node.preorder 0) node.outline ↔
        forall n, n ∈ node.preorder 0 ->
          forall text, text ∈ n.2.plainTexts -> '\n' ∉ text.toList) :=
  ⟨toList_outline node, fun n _ => indented_row n.1 n.2, breaks_outline node, oneLineEach_iff node⟩

theorem outline_breaks_note :
    let note : Component := { Component.blank "Note" with content := some ⟨"/note", none⟩ }
    let model : Model := ⟨.object [("note", .text "one\ntwo")], rfl⟩
    exists node, Render.component note model = some node ∧ (node.preorder 0).length = 1 ∧
      node.outline = "Note = one\ntwo\n" ∧ ¬ OneLineEach (node.preorder 0) node.outline := by
  intro note model
  refine ⟨⟨none, "Note", [], some (.text "one\ntwo"), []⟩, rfl, rfl, rfl, ?_⟩
  intro h
  have htext := (oneLineEach_iff _).1 h _ List.mem_cons_self "one\ntwo"
    (List.mem_cons_of_mem "Note" List.mem_cons_self)
  exact htext (by decide)

end Node
end SurfaceFeed
