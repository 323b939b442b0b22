import SurfaceFeed.Proofs.Message.Decoded

/-!
# What components keep of their documents

## Fields that are passed on

A component reads the fields that it knows and keeps the others as they stand.
This holds at every level: each child is read from an item of the list at
`children`, and the template from the document at `template`.  The components
of an update are read from the list in the document of its surface.
-/

namespace SurfaceFeed

open Component (isProp)

namespace Json

def itemsAt (fields : List (String × Json)) (name : String) : List Json :=
  match Fields.find? fields name with
  | some (array items) => items
  | _ => []

def surface? : Json -> Option Json
  | object fields => Fields.find? fields "surface"
  | array (_ :: surface :: _) => some surface
  | _ => none

/-- The documents of the components in the document of a surface. -/
def componentsOf : Json -> List Json
  | object fields => itemsAt fields "components"
  | array (_ :: _ :: array items :: _) => items
  | _ => []

theorem itemsAt_of_find? {fields : List (String × Json)} {name : String} {items : List Json}
    (h : Fields.find? fields name = some (array items)) : itemsAt fields name = items := by
  unfold itemsAt
  rw [h]

theorem itemsAt_of_none {fields : List (String × Json)} {name : String}
    (h : Fields.find? fields name = none) : itemsAt fields name = [] := by
  unfold itemsAt
  rw [h]

end Json

namespace Component

mutual

/-- At every level the component has the fields of its document that it does not read itself. -/
inductive Keeps : Json -> Component -> Prop where
  | object {fields : List (String × Json)} {c : Component}
      (props : c.props = fields.filter fun field => isProp field.1)
      (template : KeepsTemplate (Fields.find? fields "template") c.template)
      (children : KeepsAll (Json.itemsAt fields "children") c.children) :
      Keeps (.object fields) c

inductive KeepsTemplate : Option Json -> Option Component -> Prop where
  | absent : KeepsTemplate none none
  | null : KeepsTemplate (some .null) none
  | present {json : Json} {c : Component} (kept : Keeps json c) :
      KeepsTemplate (some json) (some c)

inductive KeepsAll : List Json -> List Component -> Prop where
  | nil : KeepsAll [] []
  | cons {json : Json} {items : List Json} {c : Component} {cs : List Component}
      (head : Keeps json c) (tail : KeepsAll items cs) : KeepsAll (json :: items) (c :: cs)

end

theorem keeps_object_iff {fields : List (String × Json)} {c : Component} :
    Keeps (.object fields) c ↔
      c.props = (fields.filter fun field => isProp field.1) ∧
        KeepsTemplate (Fields.find? fields "template") c.template ∧
        KeepsAll (Json.itemsAt fields "children") c.children := by
  constructor
  · intro h
    cases h with
    | object props template children => exact ⟨props, template, children⟩
  · intro h
    exact .object h.1 h.2.1 h.2.2

@[simp] theorem keepsAll_nil_iff {cs : List Component} : KeepsAll [] cs ↔ cs = [] := by
  constructor
  · intro h
    cases h
    rfl
  · intro h
    rw [h]
    exact .nil

@[simp] theorem keepsAll_cons_iff {json : Json} {items : List Json} {cs : List Component} :
    KeepsAll (json :: items) cs ↔
      exists c rest, cs = c :: rest ∧ Keeps json c ∧ KeepsAll items rest := by
  constructor
  · intro h
    cases h with
    | cons head tail => exact ⟨_, _, rfl, head, tail⟩
  · intro h
    rcases h with ⟨c, rest, rfl, head, tail⟩
    exact .cons head tail

end Component

namespace Decode

open Component (Keeps KeepsTemplate KeepsAll)

section Components

variable {setting : Setting}

theorem eq_null_of_isNull {json : Json} (h : isNull json = true) : json = .null := by
  cases json <;> first | rfl | cases h

theorem array_of_childrenOf {json : Json} {cs : List Component}
    (hok : childrenOf setting json = .ok cs) :
    exists items, json = .array items ∧ components setting items = .ok cs := by
  cases json with
  | array items => exact ⟨items, rfl, hok⟩
  | object fields => cases hok
  | text s => cases hok
  | null => cases hok
  | bool b => cases hok
  | int n => cases hok
  | float f => cases hok

theorem object_of_component {json : Json} {c : Component} (h : json.Stored)
    (hok : component setting json = .ok c) :
    exists fields, json = .object fields ∧ (Json.object fields).Stored ∧
      Filled setting (Component.blank "") fields c := by
  cases json with
  | object fields => exact ⟨fields, rfl, h, ((component_eq_ok_iff h.wellFormed.1).1 hok).1⟩
  | array items => cases hok
  | text s => cases hok
  | null => cases hok
  | bool b => cases hok
  | int n => cases hok
  | float f => cases hok

theorem keepsAll_of_taken {cs : List Component} {fields : List (String × Json)} {name : String}
    (h : forall field, field ∈ fields -> field.2.Stored)
    (hall : forall items, (forall item, item ∈ items -> item.Stored) ->
      components setting items = .ok cs -> KeepsAll items cs)
    (htaken : Taken fields name (childrenOf setting) [] cs) :
    KeepsAll (Json.itemsAt fields name) cs := by
  unfold Taken at htaken
  split at htaken
  · next json hfind =>
      rcases array_of_childrenOf htaken with ⟨items, rfl, hitems⟩
      rw [Json.itemsAt_of_find? hfind]
      exact hall items (stored_of_find? h hfind).of_mem_items hitems
  · next hfind =>
      rw [Json.itemsAt_of_none hfind, htaken]
      exact .nil

mutual

theorem keeps_component (c : Component) {json : Json} (h : json.Stored)
    (hok : component setting json = .ok c) : Keeps json c := by
  rcases object_of_component h hok with ⟨fields, rfl, hfields, hfilled⟩
  cases c with
  | mk id kind visible shown source template children props =>
      constructor
      · exact hfilled.props
      · exact keeps_template template hfields.of_mem_fields hfilled.template
      · exact keepsAll_of_taken hfields.of_mem_fields
          (fun items hitems => keeps_components children hitems) hfilled.children

theorem keeps_template (template : Option Component) {fields : List (String × Json)}
    (h : forall field, field ∈ fields -> field.2.Stored)
    (htaken : Taken fields "template" (unlessNull (component setting)) none template) :
    KeepsTemplate (Fields.find? fields "template") template := by
  unfold Taken at htaken
  split at htaken
  · next json hfind =>
      rw [hfind]
      unfold unlessNull at htaken
      split at htaken
      · next hnull =>
          cases htaken
          rw [eq_null_of_isNull hnull]
          exact .null
      · cases template with
        | none =>
            rcases map_eq_ok_iff.1 htaken with ⟨c, _, heq⟩
            cases heq
        | some c =>
            rcases map_eq_ok_iff.1 htaken with ⟨c', hc, heq⟩
            rw [Option.some.inj heq] at hc
            exact .present (keeps_component c (stored_of_find? h hfind) hc)
  · next hfind =>
      rw [hfind, htaken]
      exact .absent

theorem keeps_components (cs : List Component) {items : List Json}
    (h : forall item, item ∈ items -> item.Stored)
    (hok : components setting items = .ok cs) : KeepsAll items cs := by
  cases items with
  | nil =>
      cases hok
      exact .nil
  | cons item items =>
      rcases bind_eq_ok_iff.1 hok with ⟨c', hc, hok⟩
      rcases bind_eq_ok_iff.1 hok with ⟨cs', hcs, hok⟩
      cases cs with
      | nil => cases hok
      | cons c cs =>
          have heq := List.cons.inj (Except.ok.inj hok)
          rw [heq.1] at hc
          rw [heq.2] at hcs
          constructor
          · exact keeps_component c (h item List.mem_cons_self) hc
          · exact keeps_components cs (fun other hother => h other (List.mem_cons_of_mem _ hother))
              hcs

end

end Components

/-! ## Surfaces and messages -/

theorem componentsOf_of_short {items : List Json} (h : items.length ≤ 2) :
    (Json.array items).componentsOf = [] := by
  rcases items with _ | ⟨id, _ | ⟨title, _ | ⟨list, rest⟩⟩⟩
  · rfl
  · rfl
  · rfl
  · simp at h

theorem keeps_surface {json : Json} {s : Surface} (h : json.Stored) (hok : surface json = .ok s) :
    KeepsAll json.componentsOf s.components := by
  cases json with
  | object fields =>
      exact keepsAll_of_taken h.of_mem_fields (fun items hitems => keeps_components _ hitems)
        (taken_of_surfaceFields hok)
  | array items =>
      rcases cases_of_surfaceItems hok with ⟨hshort, hnone⟩ | ⟨id, title, list, rest, rfl, hlist⟩
      · rw [componentsOf_of_short hshort, hnone]
        exact .nil
      · rcases array_of_childrenOf hlist with ⟨found, rfl, hfound⟩
        have hstored := h.of_mem_items (.array found) (by simp)
        exact keeps_components _ hstored.of_mem_items hfound
  | text s => cases hok
  | null => cases hok
  | bool b => cases hok
  | int n => cases hok
  | float f => cases hok

theorem kind_of_messageOfFields {kind : Message.Kind} {fields : List (String × Json)} {m : Message}
    (hok : messageOfFields kind fields = .ok m) : m.kind = kind := by
  cases kind with
  | surfaceUpdate =>
      rcases bind_eq_ok_iff.1 hok with ⟨surface?, _, hok⟩
      rcases bind_eq_ok_iff.1 hok with ⟨found, _, hok⟩
      cases hok
      rfl
  | dataModelUpdate =>
      rcases bind_eq_ok_iff.1 hok with ⟨data, _, hok⟩
      rcases bind_eq_ok_iff.1 hok with ⟨path, _, hok⟩
      cases hok
      rfl
  | deleteSurface =>
      rcases bind_eq_ok_iff.1 hok with ⟨id?, _, hok⟩
      rcases bind_eq_ok_iff.1 hok with ⟨id, _, hok⟩
      cases hok
      rfl
  | beginRendering =>
      rcases bind_eq_ok_iff.1 hok with ⟨id, _, hok⟩
      cases hok
      rfl

theorem kind_of_messageOfItems {kind : Message.Kind} {items : List Json} {m : Message}
    (hok : messageOfItems kind items = .ok m) : m.kind = kind := by
  cases kind with
  | surfaceUpdate =>
      rcases bind_eq_ok_iff.1 hok with ⟨⟨found, left⟩, _, hok⟩
      rcases bind_eq_ok_iff.1 hok with ⟨_, _, hok⟩
      cases hok
      rfl
  | dataModelUpdate =>
      rcases bind_eq_ok_iff.1 hok with ⟨⟨path, left⟩, _, hok⟩
      rcases bind_eq_ok_iff.1 hok with ⟨⟨data, rest⟩, _, hok⟩
      rcases bind_eq_ok_iff.1 hok with ⟨_, _, hok⟩
      cases hok
      rfl
  | deleteSurface =>
      rcases bind_eq_ok_iff.1 hok with ⟨⟨id, left⟩, _, hok⟩
      rcases bind_eq_ok_iff.1 hok with ⟨_, _, hok⟩
      cases hok
      rfl
  | beginRendering =>
      rcases bind_eq_ok_iff.1 hok with ⟨⟨id, left⟩, _, hok⟩
      rcases bind_eq_ok_iff.1 hok with ⟨_, _, hok⟩
      cases hok
      rfl

/-- The surface of an update is read from a document in the document of the update. -/
theorem surface_of_message {json : Json} {s : Surface} (h : json.Stored)
    (hok : message json = .ok (.surfaceUpdate s)) :
    exists doc, json.surface? = some doc ∧ doc.Stored ∧ surface doc = .ok s := by
  cases json with
  | object fields =>
      rcases bind_eq_ok_iff.1 hok with ⟨tag?, _, hok⟩
      rcases bind_eq_ok_iff.1 hok with ⟨tag, _, hok⟩
      cases kind_of_messageOfFields hok
      rcases surface_of_messageOfFields hok with ⟨found, doc, heq, hfind, hdoc⟩
      cases heq
      exact ⟨doc, hfind, stored_of_find? h.of_mem_fields hfind, hdoc⟩
  | array items =>
      cases items with
      | nil => cases hok
      | cons tag items =>
          rcases bind_eq_ok_iff.1 hok with ⟨kind, _, hok⟩
          cases kind_of_messageOfItems hok
          rcases surface_of_messageOfItems hok with ⟨found, doc, left, heq, rfl, hdoc⟩
          cases heq
          exact ⟨doc, rfl, h.of_mem_items doc (by simp), hdoc⟩
  | text s => cases hok
  | null => cases hok
  | bool b => cases hok
  | int n => cases hok
  | float f => cases hok

theorem keeps_message {json : Json} {s : Surface} (h : json.Stored)
    (hok : message json = .ok (.surfaceUpdate s)) :
    exists doc, json.surface? = some doc ∧ KeepsAll doc.componentsOf s.components := by
  rcases surface_of_message h hok with ⟨doc, hdoc, hstored, hsurface⟩
  exact ⟨doc, hdoc, keeps_surface hstored hsurface⟩

end Decode
end SurfaceFeed
