import SurfaceFeed.Proofs.Render.Expansion
import SurfaceFeed.Proofs.Substitution

/-!
# What an instance has of its template

## Texts and skeletons

The texts of a component that may name an item are its id, the paths that it reads
and the strings among its properties, and those of its children.  What is left
when they are taken out is its skeleton, and both together determine it.  So an
instance of a template is told by its texts, which are those of the template
filled in, and by its skeleton, which is that of the template.

A template inside the template belongs to the skeleton.  Its placeholders wait for
the items of the list that repeats it.
-/

namespace SurfaceFeed

/--
Texts and skeleton determine a value, and it can be told from the front of a longer list of texts
where its own texts end.
-/
def Separates {α β : Type} (skeleton : α -> β) (texts : α -> List String) : Prop :=
  forall (a b : α) (s t : List String),
    skeleton a = skeleton b -> texts a ++ s = texts b ++ t -> a = b ∧ s = t

namespace Separates

variable {α β : Type} {skeleton : α -> β} {texts : α -> List String}

theorem eq (h : Separates skeleton texts) {a b : α} (hskeleton : skeleton a = skeleton b)
    (htexts : texts a = texts b) : a = b :=
  (h a b [] [] hskeleton (congrArg (· ++ []) htexts)).1

theorem option (h : Separates skeleton texts) :
    Separates (Option.map skeleton) fun o => o.elim [] texts := by
  intro a b s t hskeleton htexts
  cases a with
  | none =>
      cases b with
      | none => exact ⟨rfl, htexts⟩
      | some b => cases hskeleton
  | some a =>
      cases b with
      | none => cases hskeleton
      | some b =>
          rcases h a b s t (Option.some.inj hskeleton) htexts with ⟨rfl, hrest⟩
          exact ⟨rfl, hrest⟩

end Separates

theorem elim_map {α : Type} {texts : α -> List String} {change : α -> α} {fill : Filling}
    (h : forall a, texts (change a) = (texts a).map fill) (o : Option α) :
    (o.map change).elim [] texts = (o.elim [] texts).map fill := by
  cases o with
  | none => rfl
  | some a => exact h a

/-! ## Documents -/

namespace Json

mutual

def texts : Json -> List String
  | .text s => [s]
  | .array items => textsOfItems items
  | .object fields => textsOfFields fields
  | .null | .bool _ | .int _ | .float _ => []

def textsOfItems : List Json -> List String
  | [] => []
  | item :: items => texts item ++ textsOfItems items

def textsOfFields : List (String × Json) -> List String
  | [] => []
  | (_, value) :: fields => texts value ++ textsOfFields fields

end

mutual

def skeleton : Json -> Json
  | .text _ => .text ""
  | .array items => .array (skeletonOfItems items)
  | .object fields => .object (skeletonOfFields fields)
  | .null => .null
  | .bool b => .bool b
  | .int n => .int n
  | .float f => .float f

def skeletonOfItems : List Json -> List Json
  | [] => []
  | item :: items => skeleton item :: skeletonOfItems items

def skeletonOfFields : List (String × Json) -> List (String × Json)
  | [] => []
  | (name, value) :: fields => (name, skeleton value) :: skeletonOfFields fields

end

mutual

theorem separates : Separates skeleton texts := by
  intro a b s t hskeleton htexts
  cases a with
  | text x =>
      cases b with
      | text y =>
          cases (List.cons.inj htexts).1
          exact ⟨rfl, (List.cons.inj htexts).2⟩
      | _ => cases hskeleton
  | array items =>
      cases b with
      | array others =>
          have hitems := separates_items items others s t (Json.array.inj hskeleton) htexts
          exact ⟨congrArg Json.array hitems.1, hitems.2⟩
      | _ => cases hskeleton
  | object fields =>
      cases b with
      | object others =>
          have hfields := separates_fields fields others s t (Json.object.inj hskeleton) htexts
          exact ⟨congrArg Json.object hfields.1, hfields.2⟩
      | _ => cases hskeleton
  | null | bool _ | int _ | float _ =>
      cases b <;> cases hskeleton
      exact ⟨rfl, htexts⟩

theorem separates_items : Separates skeletonOfItems textsOfItems := by
  intro as bs s t hskeleton htexts
  cases as with
  | nil =>
      cases bs with
      | nil => exact ⟨rfl, htexts⟩
      | cons b bs => cases hskeleton
  | cons a as =>
      cases bs with
      | nil => cases hskeleton
      | cons b bs =>
          rcases List.cons.inj hskeleton with ⟨hfirst, hrest⟩
          rw [textsOfItems, textsOfItems, List.append_assoc, List.append_assoc] at htexts
          rcases separates a b _ _ hfirst htexts with ⟨rfl, hafter⟩
          rcases separates_items as bs s t hrest hafter with ⟨rfl, hend⟩
          exact ⟨rfl, hend⟩

theorem separates_fields : Separates skeletonOfFields textsOfFields := by
  intro as bs s t hskeleton htexts
  cases as with
  | nil =>
      cases bs with
      | nil => exact ⟨rfl, htexts⟩
      | cons b bs => cases hskeleton
  | cons a as =>
      cases bs with
      | nil => cases hskeleton
      | cons b bs =>
          rcases a with ⟨name, value⟩
          rcases b with ⟨other, shown⟩
          rcases List.cons.inj hskeleton with ⟨hfirst, hrest⟩
          rcases Prod.mk.inj hfirst with ⟨rfl, hvalue⟩
          rw [textsOfFields, textsOfFields, List.append_assoc, List.append_assoc] at htexts
          rcases separates value shown _ _ hvalue htexts with ⟨rfl, hafter⟩
          rcases separates_fields as bs s t hrest hafter with ⟨rfl, hend⟩
          exact ⟨rfl, hend⟩

end

mutual

theorem texts_fill (fill : Filling) : forall value : Json,
    (fill.json value).texts = value.texts.map fill
  | .null | .bool _ | .int _ | .float _ | .text _ => rfl
  | .array items => by rw [Filling.json, texts, texts, textsOfItems_fill fill items]
  | .object fields => by rw [Filling.json, texts, texts, textsOfFields_fill fill fields]

theorem textsOfItems_fill (fill : Filling) : forall items : List Json,
    textsOfItems (fill.jsonItems items) = (textsOfItems items).map fill
  | [] => rfl
  | item :: items => by
      simp [Filling.jsonItems, textsOfItems, texts_fill fill item, textsOfItems_fill fill items]

theorem textsOfFields_fill (fill : Filling) : forall fields : List (String × Json),
    textsOfFields (fill.jsonFields fields) = (textsOfFields fields).map fill
  | [] => rfl
  | (name, value) :: fields => by
      simp [Filling.jsonFields, textsOfFields, texts_fill fill value,
        textsOfFields_fill fill fields]

end

mutual

theorem skeleton_fill (fill : Filling) : forall value : Json,
    (fill.json value).skeleton = value.skeleton
  | .null | .bool _ | .int _ | .float _ | .text _ => rfl
  | .array items => by rw [Filling.json, skeleton, skeleton, skeletonOfItems_fill fill items]
  | .object fields => by rw [Filling.json, skeleton, skeleton, skeletonOfFields_fill fill fields]

theorem skeletonOfItems_fill (fill : Filling) : forall items : List Json,
    skeletonOfItems (fill.jsonItems items) = skeletonOfItems items
  | [] => rfl
  | item :: items => by
      rw [Filling.jsonItems, skeletonOfItems, skeletonOfItems, skeleton_fill fill item,
        skeletonOfItems_fill fill items]

theorem skeletonOfFields_fill (fill : Filling) : forall fields : List (String × Json),
    skeletonOfFields (fill.jsonFields fields) = skeletonOfFields fields
  | [] => rfl
  | (name, value) :: fields => by
      rw [Filling.jsonFields, skeletonOfFields, skeletonOfFields, skeleton_fill fill value,
        skeletonOfFields_fill fill fields]

end

end Json

/-! ## Parts of a component -/

theorem separates_id : Separates (fun _ => "") fun id : String => [id] := by
  intro a b s t _ htexts
  exact List.cons.inj htexts

namespace VisibleIf

def texts : VisibleIf -> List String
  | .path pointer => [pointer]
  | .condition c => [c.path]

def skeleton : VisibleIf -> VisibleIf
  | .path _ => .path ""
  | .condition c => .condition { c with path := "" }

theorem separates : Separates skeleton texts := by
  intro a b s t hskeleton htexts
  cases a with
  | path a =>
      cases b with
      | path b =>
          rcases List.cons.inj htexts with ⟨rfl, hrest⟩
          exact ⟨rfl, hrest⟩
      | condition b => cases hskeleton
  | condition a =>
      cases b with
      | path b => cases hskeleton
      | condition b =>
          cases a
          cases b
          rcases List.cons.inj htexts with ⟨hpath, hrest⟩
          cases hpath
          cases hskeleton
          exact ⟨rfl, hrest⟩

theorem texts_fill (fill : Filling) (v : VisibleIf) :
    (fill.visibleIf v).texts = v.texts.map fill := by
  cases v <;> rfl

theorem skeleton_fill (fill : Filling) (v : VisibleIf) :
    (fill.visibleIf v).skeleton = v.skeleton := by
  cases v <;> rfl

end VisibleIf

namespace Content

def texts (c : Content) : List String :=
  [c.path]

def skeleton (c : Content) : Content :=
  { c with path := "" }

theorem separates : Separates skeleton texts := by
  intro a b s t hskeleton htexts
  cases a
  cases b
  rcases List.cons.inj htexts with ⟨hpath, hrest⟩
  cases hpath
  cases hskeleton
  exact ⟨rfl, hrest⟩

theorem texts_fill (fill : Filling) (c : Content) :
    (fill.content c).texts = c.texts.map fill :=
  rfl

theorem skeleton_fill (fill : Filling) (c : Content) :
    (fill.content c).skeleton = c.skeleton :=
  rfl

end Content

namespace Items

def texts : Items -> List String
  | .path pointer => [pointer]
  | .inline _ => []

def skeleton : Items -> Items
  | .path _ => .path ""
  | .inline values => .inline values

theorem separates : Separates skeleton texts := by
  intro a b s t hskeleton htexts
  cases a with
  | path a =>
      cases b with
      | path b =>
          rcases List.cons.inj htexts with ⟨rfl, hrest⟩
          exact ⟨rfl, hrest⟩
      | inline b => cases hskeleton
  | inline a =>
      cases b with
      | path b => cases hskeleton
      | inline b =>
          cases hskeleton
          exact ⟨rfl, htexts⟩

theorem texts_fill (fill : Filling) (i : Items) : (fill.items i).texts = i.texts.map fill := by
  cases i <;> rfl

theorem skeleton_fill (fill : Filling) (i : Items) : (fill.items i).skeleton = i.skeleton := by
  cases i <;> rfl

end Items

/-! ## Components -/

namespace Component

mutual

/-- The texts of a component and of its children; those of its template are not among them. -/
def texts : Component -> List String
  | ⟨id, _, visible, shown, source, _, children, props⟩ =>
      id.elim [] (fun id => [id]) ++ (visible.elim [] VisibleIf.texts ++
        (shown.elim [] Content.texts ++ (source.elim [] Items.texts ++
          (Json.textsOfFields props ++ textsOfAll children))))

def textsOfAll : List Component -> List String
  | [] => []
  | c :: cs => texts c ++ textsOfAll cs

end

mutual

def skeleton : Component -> Component
  | ⟨id, kind, visible, shown, source, template, children, props⟩ =>
      ⟨id.map fun _ => "", kind, visible.map VisibleIf.skeleton, shown.map Content.skeleton,
        source.map Items.skeleton, template, skeletonOfAll children, Json.skeletonOfFields props⟩

def skeletonOfAll : List Component -> List Component
  | [] => []
  | c :: cs => skeleton c :: skeletonOfAll cs

end

mutual

theorem separates : Separates skeleton texts := by
  intro c d s t hskeleton htexts
  rcases c with ⟨id, kind, visible, shown, source, template, children, props⟩
  rcases d with ⟨id', kind', visible', shown', source', template', children', props'⟩
  rw [skeleton, skeleton, mk.injEq] at hskeleton
  rcases hskeleton with ⟨hid, rfl, hvisible, hshown, hsource, rfl, hchildren, hprops⟩
  -- each part takes its own texts from the front of those that are left
  simp only [texts, List.append_assoc] at htexts
  rcases separates_id.option _ _ _ _ hid htexts with ⟨rfl, hfromVisible⟩
  rcases VisibleIf.separates.option _ _ _ _ hvisible hfromVisible with ⟨rfl, hfromShown⟩
  rcases Content.separates.option _ _ _ _ hshown hfromShown with ⟨rfl, hfromSource⟩
  rcases Items.separates.option _ _ _ _ hsource hfromSource with ⟨rfl, hfromProps⟩
  rcases Json.separates_fields _ _ _ _ hprops hfromProps with ⟨rfl, hfromChildren⟩
  rcases separates_all children children' s t hchildren hfromChildren with ⟨rfl, hend⟩
  exact ⟨rfl, hend⟩

theorem separates_all : Separates skeletonOfAll textsOfAll := by
  intro cs ds s t hskeleton htexts
  cases cs with
  | nil =>
      cases ds with
      | nil => exact ⟨rfl, htexts⟩
      | cons d ds => cases hskeleton
  | cons c cs =>
      cases ds with
      | nil => cases hskeleton
      | cons d ds =>
          rcases List.cons.inj hskeleton with ⟨hfirst, hrest⟩
          rw [textsOfAll, textsOfAll, List.append_assoc, List.append_assoc] at htexts
          rcases separates c d _ _ hfirst htexts with ⟨rfl, hafter⟩
          rcases separates_all cs ds s t hrest hafter with ⟨rfl, hend⟩
          exact ⟨rfl, hend⟩

end

section Fill

variable (fill : Filling)

mutual

theorem texts_fill : forall c : Component, (fill.component c).texts = c.texts.map fill
  | ⟨id, _, visible, shown, source, _, children, props⟩ => by
      have hid : (id.map fill).elim [] (fun id => [id]) = (id.elim [] fun id => [id]).map fill :=
        by cases id <;> rfl
      have hvisible := elim_map (VisibleIf.texts_fill fill) visible
      have hshown := elim_map (Content.texts_fill fill) shown
      have hsource := elim_map (Items.texts_fill fill) source
      simp only [Filling.component, texts, List.map_append, hid, hvisible, hshown, hsource,
        Json.textsOfFields_fill, textsOfAll_fill children]

theorem textsOfAll_fill : forall cs : List Component,
    textsOfAll (fill.components cs) = (textsOfAll cs).map fill
  | [] => rfl
  | c :: cs => by
      simp [Filling.components, textsOfAll, texts_fill c, textsOfAll_fill cs]

end

mutual

theorem skeleton_fill : forall c : Component, (fill.component c).skeleton = c.skeleton
  | ⟨id, _, visible, shown, source, _, children, props⟩ => by
      have hvisible : VisibleIf.skeleton ∘ fill.visibleIf = VisibleIf.skeleton :=
        funext (VisibleIf.skeleton_fill fill)
      have hshown : Content.skeleton ∘ fill.content = Content.skeleton :=
        funext (Content.skeleton_fill fill)
      have hsource : Items.skeleton ∘ fill.items = Items.skeleton :=
        funext (Items.skeleton_fill fill)
      simp only [Filling.component, skeleton, Option.map_map, hvisible, hshown, hsource,
        Json.skeletonOfFields_fill, skeletonOfAll_fill children]
      rfl

theorem skeletonOfAll_fill : forall cs : List Component,
    skeletonOfAll (fill.components cs) = skeletonOfAll cs
  | [] => rfl
  | c :: cs => by
      rw [Filling.components, skeletonOfAll, skeletonOfAll, skeleton_fill c, skeletonOfAll_fill cs]

end

/-- What fills in the texts of a component keeps its skeleton, and nothing else does both. -/
theorem eq_fill_iff {c d : Component} :
    d = fill.component c ↔ d.skeleton = c.skeleton ∧ d.texts = c.texts.map fill := by
  constructor
  · intro h
    rw [h]
    exact ⟨skeleton_fill fill c, texts_fill fill c⟩
  · intro h
    rcases h with ⟨hskeleton, htexts⟩
    exact separates.eq (hskeleton.trans (skeleton_fill fill c).symm)
      (htexts.trans (texts_fill fill c).symm)

end Fill

/-! ## Descendants -/

def descendant? (c : Component) : List Nat -> Option Component
  | [] => some c
  | position :: path => c.children[position]?.bind fun child => child.descendant? path

@[simp] theorem components_eq_map (fill : Filling) (cs : List Component) :
    fill.components cs = cs.map fill.component := by
  induction cs with
  | nil => rfl
  | cons c cs ih => rw [Filling.components, ih, List.map_cons]

theorem descendant?_fill (fill : Filling) (c : Component) (path : List Nat) :
    (fill.component c).descendant? path = (c.descendant? path).map fill.component := by
  induction path generalizing c with
  | nil => rfl
  | cons position path ih =>
      have hchildren : (fill.component c).children = c.children.map fill.component := by
        rcases c with ⟨_, _, _, _, _, _, children, _⟩
        exact components_eq_map fill children
      rw [descendant?, descendant?, hchildren, List.getElem?_map]
      cases c.children[position]? with
      | none => rfl
      | some child => exact ih child

end Component

/-! ## Lists inside an instance -/

namespace Render

/-- The nodes of the visible instances of a template for the items of a list. -/
def rowNodes (template : Component) (values : List Value) (model : Model) : List Node :=
  values.zipIdx.filterMap fun row => component (template.instantiate row.1 row.2) model

theorem children_of_template {c template : Component} (h : c.template = some template)
    (model : Model) :
    (component c model).map Node.children =
      if isVisible c.visibleIf model then
        some ((c.children.filterMap fun child => component child model) ++
          rowNodes template (itemsOf c.items model) model)
      else none := by
  have hrows : (c.rows model).filterMap (fun row => component row model) =
      rowNodes template (itemsOf c.items model) model := by
    rw [Component.rows, h]
    exact List.filterMap_map
  rw [component_eq, ← hrows, ← List.filterMap_append]
  split
  · rfl
  · rfl

end Render

namespace Component

variable (t : Component) (item : Value) (position : Nat)

theorem descendant?_instantiate {path : List Nat} {own : Component}
    (h : t.descendant? path = some own) :
    (t.instantiate item position).descendant? path = some (own.instantiate item position) := by
  rw [instantiate, descendant?_fill, h]
  rfl

theorem template_instantiate : (t.instantiate item position).template = t.template := by
  cases t
  rfl

theorem instantiate_of_unmarked
    (h : forall text, text ∈ t.texts -> forall m : Placeholder.Mark, ¬ m.text <:+: text.toList) :
    t.instantiate item position = t := by
  have hfill : forall text, text ∈ t.texts -> Placeholder.fill item position text = text :=
    fun text hmem => Placeholder.fill_of_unmarked item position (h text hmem)
  have htexts : t.texts.map (Placeholder.fill item position) = t.texts :=
    (List.map_congr_left hfill).trans (List.map_id' t.texts)
  exact ((eq_fill_iff (Filling.ofItem item position)).2 ⟨rfl, htexts.symm⟩).symm

/--
An instance is the one component that has the skeleton of its template, and the texts of its
template filled in.  A list in it stands where the template has one and repeats the same nested
template, which is filled for the items of that list only.  Where no text has a placeholder, the
instance is the template.
-/
theorem instantiate_hygienic :
    (forall d, d = t.instantiate item position ↔
      d.skeleton = t.skeleton ∧ d.texts = t.texts.map (Placeholder.fill item position)) ∧
    (forall path own, t.descendant? path = some own ->
      exists filled, (t.instantiate item position).descendant? path = some filled ∧
        filled.skeleton = own.skeleton ∧ filled.template = own.template ∧
        forall nested, own.template = some nested -> forall model,
          (Render.component filled model).map Node.children =
            if Render.isVisible filled.visibleIf model then
              some ((filled.children.filterMap fun child => Render.component child model) ++
                Render.rowNodes nested (Render.itemsOf filled.items model) model)
            else none) ∧
    ((forall text, text ∈ t.texts -> forall m : Placeholder.Mark, ¬ m.text <:+: text.toList) ->
      t.instantiate item position = t) := by
  refine ⟨fun d => eq_fill_iff _, ?_, instantiate_of_unmarked t item position⟩
  intro path own hown
  refine ⟨own.instantiate item position, descendant?_instantiate t item position hown,
    skeleton_fill _ own, template_instantiate own item position, ?_⟩
  intro nested hnested model
  exact Render.children_of_template ((template_instantiate own item position).trans hnested) model

theorem instantiate_hygienic_cells :
    let cell : Component := ⟨some "cell-\x7bindex\x7d", "Text", none, none, none, none, [], []⟩
    let list : Component :=
      ⟨some "cells", "List", none, none, some (.inline [.text "a"]), some cell, [], []⟩
    (forall text, text ∈ list.texts -> forall m : Placeholder.Mark, ¬ m.text <:+: text.toList) ∧
      list.instantiate (.text "outer") 7 = list ∧ list.descendant? [] = some list ∧
      exists filled, (list.instantiate (.text "outer") 7).descendant? [] = some filled ∧
        forall model, (Render.component filled model).map Node.children =
          if Render.isVisible filled.visibleIf model then
            some ((filled.children.filterMap fun child => Render.component child model) ++
              Render.rowNodes cell (Render.itemsOf filled.items model) model)
          else none := by
  intro cell list
  have hplain : forall text, text ∈ list.texts ->
      forall m : Placeholder.Mark, ¬ m.text <:+: text.toList := by
    intro text hmem
    cases List.mem_singleton.1 hmem
    exact Placeholder.not_infix_of_plain (by decide)
  rcases instantiate_hygienic list (.text "outer") 7 with ⟨_, hlists, hself⟩
  rcases hlists [] list rfl with ⟨filled, hfilled, _, _, hcells⟩
  exact ⟨hplain, hself hplain, rfl, filled, hfilled, hcells cell rfl⟩

end Component
end SurfaceFeed
