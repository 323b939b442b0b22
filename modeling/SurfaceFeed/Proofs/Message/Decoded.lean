import SurfaceFeed.Message.Decode
import SurfaceFeed.Proofs.Message.Stored

/-!
# What a component is decoded to

## Fields in any order

The fields of a component are read one after the other.  As no name stands
twice, the outcome does not depend on their order: each part of the component
comes from the field of its name or keeps its default, and the properties are
the other fields.
-/

namespace SurfaceFeed
namespace Decode

open Component (isProp)

section Fill

variable {α β : Type}

theorem bind_eq_ok_iff {x : Except DecodeError α} {f : α -> Except DecodeError β} {b : β} :
    x >>= f = .ok b ↔ exists a, x = .ok a ∧ f a = .ok b := by
  cases x with
  | error e =>
      constructor
      · intro h
        cases h
      · intro h
        rcases h with ⟨a, ha, _⟩
        cases ha
  | ok a =>
      constructor
      · intro h
        exact ⟨a, rfl, h⟩
      · intro h
        rcases h with ⟨a', ha, hb⟩
        cases ha
        exact hb

theorem map_eq_ok_iff {x : Except DecodeError α} {f : α -> β} {b : β} :
    x.map f = .ok b ↔ exists a, x = .ok a ∧ f a = b := by
  cases x with
  | error e =>
      constructor
      · intro h
        cases h
      · intro h
        rcases h with ⟨a, ha, _⟩
        cases ha
  | ok a =>
      constructor
      · intro h
        cases h
        exact ⟨a, rfl, rfl⟩
      · intro h
        rcases h with ⟨a', ha, rfl⟩
        cases ha
        rfl

/-- The value comes from the field of this name, or is the default without one. -/
def Taken (fields : List (String × Json)) (name : String)
    (decode : Json -> Except DecodeError α) (default value : α) : Prop :=
  match Fields.find? fields name with
  | some json => decode json = .ok value
  | none => value = default

theorem taken_cons {name other : String} {json : Json} {fields : List (String × Json)}
    {decode : Json -> Except DecodeError α} {default value : α} :
    Taken ((name, json) :: fields) other decode default value ↔
      if name = other then decode json = .ok value
      else Taken fields other decode default value := by
  unfold Taken
  rw [Fields.find?_cons]
  by_cases hname : name = other
  · rw [if_pos hname, if_pos hname]
  · rw [if_neg hname, if_neg hname]

theorem taken_of_none {name : String} {fields : List (String × Json)}
    {decode : Json -> Except DecodeError α} {default value : α}
    (h : Fields.find? fields name = none) :
    Taken fields name decode default value ↔ value = default := by
  unfold Taken
  rw [h]

theorem ne_of_isProp {name own : String} (hname : isProp name = true)
    (hown : isProp own = false) : name ≠ own := by
  intro heq
  rw [heq, hown] at hname
  cases hname

theorem taken_cons_prop {name own : String} {json : Json} {fields : List (String × Json)}
    {decode : Json -> Except DecodeError α} {default value : α} (hname : isProp name = true)
    (hown : isProp own = false) :
    Taken ((name, json) :: fields) own decode default value ↔
      Taken fields own decode default value := by
  rw [taken_cons, if_neg (ne_of_isProp hname hown)]

structure Filled (setting : Setting) (c : Component) (fields : List (String × Json))
    (filled : Component) : Prop where
  id : Taken fields "id" optionalText c.id filled.id
  kind : Taken fields "type" text c.kind filled.kind
  visibleIf : Taken fields "visibleIf" (unlessNull visibleIf) c.visibleIf filled.visibleIf
  content : Taken fields "contentExpr" (unlessNull (content setting)) c.content filled.content
  items : Taken fields "items" (unlessNull items) c.items filled.items
  template : Taken fields "template" (unlessNull (component setting)) c.template filled.template
  children : Taken fields "children" (childrenOf setting) c.children filled.children
  props : filled.props = c.props ++ fields.filter fun field => isProp field.1

variable {setting : Setting} {c filled : Component} {name : String} {json : Json}
  {fields : List (String × Json)}

theorem filled_iff :
    Filled setting c fields filled ↔
      Taken fields "id" optionalText c.id filled.id ∧
      Taken fields "type" text c.kind filled.kind ∧
      Taken fields "visibleIf" (unlessNull visibleIf) c.visibleIf filled.visibleIf ∧
      Taken fields "contentExpr" (unlessNull (content setting)) c.content filled.content ∧
      Taken fields "items" (unlessNull items) c.items filled.items ∧
      Taken fields "template" (unlessNull (component setting)) c.template filled.template ∧
      Taken fields "children" (childrenOf setting) c.children filled.children ∧
      filled.props = c.props ++ fields.filter fun field => isProp field.1 := by
  constructor
  · intro h
    exact ⟨h.id, h.kind, h.visibleIf, h.content, h.items, h.template, h.children, h.props⟩
  · intro h
    rcases h with ⟨hid, hkind, hvisible, hcontent, hitems, htemplate, hchildren, hprops⟩
    exact ⟨hid, hkind, hvisible, hcontent, hitems, htemplate, hchildren, hprops⟩

theorem filled_nil_iff : Filled setting c [] filled ↔ c = filled := by
  constructor
  · intro h
    rcases c with ⟨id, kind, visible, shown, source, template, children, props⟩
    rcases filled with ⟨id', kind', visible', shown', source', template', children', props'⟩
    rcases h with ⟨hid, hkind, hvisible, hcontent, hitems, htemplate, hchildren, hprops⟩
    cases hid
    cases hkind
    cases hvisible
    cases hcontent
    cases hitems
    cases htemplate
    cases hchildren
    rw [List.filter_nil, List.append_nil] at hprops
    cases hprops
    rfl
  · intro h
    cases h
    exact ⟨rfl, rfl, rfl, rfl, rfl, rfl, rfl, (List.append_nil _).symm⟩

/-- A field that nothing asks for is kept as a property. -/
theorem fillComponent_prop (h : isProp name = true) :
    fillComponent setting c ((name, json) :: fields) =
      fillComponent setting { c with props := c.props ++ [(name, json)] } fields := by
  rw [fillComponent, if_neg (ne_of_isProp h rfl), if_neg (ne_of_isProp h rfl),
    if_neg (ne_of_isProp h rfl), if_neg (ne_of_isProp h rfl), if_neg (ne_of_isProp h rfl),
    if_neg (ne_of_isProp h rfl), if_neg (ne_of_isProp h rfl)]

theorem filled_prop_iff (h : isProp name = true) :
    Filled setting c ((name, json) :: fields) filled ↔
      Filled setting { c with props := c.props ++ [(name, json)] } fields filled := by
  rw [filled_iff, filled_iff, taken_cons_prop h rfl, taken_cons_prop h rfl,
    taken_cons_prop h rfl, taken_cons_prop h rfl, taken_cons_prop h rfl, taken_cons_prop h rfl,
    taken_cons_prop h rfl, List.filter_cons_of_pos (by exact h), List.append_assoc]
  rfl

theorem fillComponent_eq_ok_iff (h : Fields.Ascending fields) :
    fillComponent setting c fields = .ok filled ↔ Filled setting c fields filled := by
  induction fields generalizing c with
  | nil => rw [fillComponent, filled_nil_iff, Except.ok.injEq]
  | cons field fields ih =>
      rcases field with ⟨name, json⟩
      have hrest : Fields.find? fields name = none := h.find?_head
      cases hprop : isProp name with
      | true => rw [fillComponent_prop hprop, filled_prop_iff hprop, ih h.tail]
      | false =>
          have hown : name ∈ Component.ownNames := by simpa [isProp] using hprop
          simp only [Component.ownNames, List.mem_cons, List.not_mem_nil, or_false] at hown
          rw [fillComponent, filled_iff,
            List.filter_cons_of_neg (by rw [hprop]; exact Bool.false_ne_true)]
          -- One part takes its value from this field, and no later field has its name.
          rcases hown with rfl | rfl | rfl | rfl | rfl | rfl | rfl
          case inr.inr.inr.inr.inr.inl =>
            cases hnull : isNull json <;>
              simp [bind_eq_ok_iff, ih h.tail, filled_iff, taken_cons, taken_of_none hrest,
                unlessNull, hnull, and_left_comm]
          all_goals
            simp [bind_eq_ok_iff, ih h.tail, filled_iff, taken_cons, taken_of_none hrest,
              and_left_comm]

theorem component_eq_ok_iff (h : Fields.Ascending fields) :
    component setting (.object fields) = .ok filled ↔
      Filled setting (Component.blank "") fields filled ∧
        (Fields.find? fields "type").isNone = false := by
  rw [component, bind_eq_ok_iff]
  simp only [fillComponent_eq_ok_iff h]
  constructor
  · intro hok
    rcases hok with ⟨c, hfilled, hkind⟩
    split at hkind
    · cases hkind
    · next hsome =>
        cases hkind
        exact ⟨hfilled, Bool.eq_false_iff.2 hsome⟩
  · intro hok
    rcases hok with ⟨hfilled, hsome⟩
    exact ⟨filled, hfilled, if_neg (Bool.eq_false_iff.1 hsome)⟩

end Fill

/-! ## Stored documents give stored messages -/

theorem stored_of_find? {fields : List (String × Json)} {name : String} {json : Json}
    (h : forall field, field ∈ fields -> field.2.Stored)
    (hfind : Fields.find? fields name = some json) : json.Stored :=
  h (name, json) (Fields.mem_of_find? hfind)

theorem storedOperand_of_field {fields : List (String × Json)} {name : String}
    {operand : Option Value} (h : forall field, field ∈ fields -> field.2.Stored)
    (hfield : field fields name value = .ok operand) : StoredOperand operand := by
  unfold field at hfield
  split at hfield
  · next json hfind =>
      cases hfield
      intro v hv
      cases hv
      exact Value.stored_ofJson (stored_of_find? h hfind)
  · cases hfield
    intro v hv
    cases hv

theorem eq_cons_of_firstPart {α : Type} {decode : Json -> Except DecodeError α} {a : α}
    {sequence : Sequence} {items left : List Json}
    (hpart : firstPart sequence decode items = .ok (a, left)) :
    exists item, items = item :: left ∧ decode item = .ok a := by
  cases items with
  | nil => cases hpart
  | cons item items =>
      rcases map_eq_ok_iff.1 hpart with ⟨a', ha, heq⟩
      cases heq
      exact ⟨item, rfl, ha⟩

theorem cases_of_part {α : Type} {decode : Json -> Except DecodeError α} {default a : α}
    {items left : List Json} (hpart : part decode default items = .ok (a, left)) :
    (items = [] ∧ left = [] ∧ a = default) ∨
      exists item, items = item :: left ∧ decode item = .ok a := by
  cases items with
  | nil =>
      cases hpart
      exact .inl ⟨rfl, rfl, rfl⟩
  | cons item items =>
      rcases map_eq_ok_iff.1 hpart with ⟨a', ha, heq⟩
      cases heq
      exact .inr ⟨item, rfl, ha⟩

theorem left_of_part {α : Type} {decode : Json -> Except DecodeError α} {default a : α}
    {items left : List Json} (h : forall item, item ∈ items -> item.Stored)
    (hpart : part decode default items = .ok (a, left)) :
    forall item, item ∈ left -> item.Stored := by
  intro item hmem
  rcases cases_of_part hpart with ⟨_, rfl, _⟩ | ⟨first, rfl, _⟩
  · cases hmem
  · exact h item (List.mem_cons_of_mem _ hmem)

theorem left_of_firstPart {α : Type} {decode : Json -> Except DecodeError α} {a : α}
    {sequence : Sequence} {items left : List Json} (h : forall item, item ∈ items -> item.Stored)
    (hpart : firstPart sequence decode items = .ok (a, left)) :
    forall item, item ∈ left -> item.Stored := by
  rcases eq_cons_of_firstPart hpart with ⟨first, rfl, _⟩
  intro item hmem
  exact h item (List.mem_cons_of_mem _ hmem)

theorem storedOperand_of_part {items left : List Json} {o : Option Value}
    (h : forall item, item ∈ items -> item.Stored)
    (hpart : part operand none items = .ok (o, left)) : StoredOperand o := by
  intro v hv
  rcases cases_of_part hpart with ⟨_, _, hnone⟩ | ⟨item, rfl, hitem⟩
  · rw [hnone] at hv
    cases hv
  · cases hitem
    cases hv
    exact Value.stored_ofJson (h item List.mem_cons_self)

theorem stored_conditionOfFields {fields : List (String × Json)} {c : Condition}
    (h : forall field, field ∈ fields -> field.2.Stored)
    (hok : conditionOfFields fields = .ok c) : c.Stored := by
  unfold conditionOfFields at hok
  rcases bind_eq_ok_iff.1 hok with ⟨path?, _, hok⟩
  rcases bind_eq_ok_iff.1 hok with ⟨expr, _, hok⟩
  rcases bind_eq_ok_iff.1 hok with ⟨eq, heq, hok⟩
  rcases bind_eq_ok_iff.1 hok with ⟨neq, hneq, hok⟩
  rcases bind_eq_ok_iff.1 hok with ⟨gt, hgt, hok⟩
  rcases bind_eq_ok_iff.1 hok with ⟨gte, hgte, hok⟩
  rcases bind_eq_ok_iff.1 hok with ⟨lt, hlt, hok⟩
  rcases bind_eq_ok_iff.1 hok with ⟨lte, hlte, hok⟩
  rcases bind_eq_ok_iff.1 hok with ⟨path, _, hok⟩
  cases hok
  constructor
  · exact storedOperand_of_field h heq
  · exact storedOperand_of_field h hneq
  · exact storedOperand_of_field h hgt
  · exact storedOperand_of_field h hgte
  · exact storedOperand_of_field h hlt
  · exact storedOperand_of_field h hlte

theorem stored_conditionOfItems {items : List Json} {c : Condition}
    (h : forall item, item ∈ items -> item.Stored)
    (hok : conditionOfItems items = .ok c) : c.Stored := by
  unfold conditionOfItems at hok
  rcases bind_eq_ok_iff.1 hok with ⟨⟨path, left⟩, hpath, hok⟩
  have hleft := left_of_firstPart h hpath
  rcases bind_eq_ok_iff.1 hok with ⟨⟨expr, left⟩, hexpr, hok⟩
  have hleft := left_of_part hleft hexpr
  rcases bind_eq_ok_iff.1 hok with ⟨⟨eq, left⟩, heq, hok⟩
  have heqStored := storedOperand_of_part hleft heq
  have hleft := left_of_part hleft heq
  rcases bind_eq_ok_iff.1 hok with ⟨⟨neq, left⟩, hneq, hok⟩
  have hneqStored := storedOperand_of_part hleft hneq
  have hleft := left_of_part hleft hneq
  rcases bind_eq_ok_iff.1 hok with ⟨⟨gt, left⟩, hgt, hok⟩
  have hgtStored := storedOperand_of_part hleft hgt
  have hleft := left_of_part hleft hgt
  rcases bind_eq_ok_iff.1 hok with ⟨⟨gte, left⟩, hgte, hok⟩
  have hgteStored := storedOperand_of_part hleft hgte
  have hleft := left_of_part hleft hgte
  rcases bind_eq_ok_iff.1 hok with ⟨⟨lt, left⟩, hlt, hok⟩
  have hltStored := storedOperand_of_part hleft hlt
  have hleft := left_of_part hleft hlt
  rcases bind_eq_ok_iff.1 hok with ⟨⟨lte, left⟩, hlte, hok⟩
  have hlteStored := storedOperand_of_part hleft hlte
  rcases bind_eq_ok_iff.1 hok with ⟨_, _, hok⟩
  cases hok
  exact ⟨heqStored, hneqStored, hgtStored, hgteStored, hltStored, hlteStored⟩

theorem stored_visibleIf {json : Json} {v : VisibleIf} (h : json.Stored)
    (hok : visibleIf json = .ok v) : v.Stored := by
  cases json with
  | text path =>
      cases hok
      exact True.intro
  | object fields =>
      rw [visibleIf] at hok
      split at hok
      · next c hc =>
          cases hok
          exact stored_conditionOfFields h.of_mem_fields hc
      · cases hok
  | array items =>
      rw [visibleIf] at hok
      split at hok
      · next c hc =>
          cases hok
          exact stored_conditionOfItems h.of_mem_items hc
      · cases hok
  | null => cases hok
  | bool b => cases hok
  | int n => cases hok
  | float f => cases hok

theorem stored_items {json : Json} {found : Items} (h : json.Stored)
    (hok : items json = .ok found) : found.Stored := by
  cases json with
  | text path =>
      cases hok
      exact True.intro
  | array values =>
      cases hok
      exact ⟨Value.wellFormedItems_ofJson h.wellFormed,
        Value.finiteItems_ofJson h.wellFormed h.bounded⟩
  | object fields => cases hok
  | null => cases hok
  | bool b => cases hok
  | int n => cases hok
  | float f => cases hok

theorem of_taken_unlessNull {α : Type} {decode : Json -> Except DecodeError α}
    {fields : List (String × Json)} {name : String} {o : Option α} {P : α -> Prop}
    (h : forall field, field ∈ fields -> forall a, decode field.2 = .ok a -> P a)
    (htaken : Taken fields name (unlessNull decode) none o) : forall a, o = some a -> P a := by
  intro a ha
  unfold Taken at htaken
  split at htaken
  · next json hfind =>
      unfold unlessNull at htaken
      split at htaken
      · cases htaken
        cases ha
      · rcases map_eq_ok_iff.1 htaken with ⟨a', hdecode, heq⟩
        rw [ha] at heq
        cases heq
        exact h (name, json) (Fields.mem_of_find? hfind) a hdecode
  · rw [htaken] at ha
    cases ha

theorem storedProps_filter {fields : List (String × Json)} (h : (Json.object fields).WellFormed) :
    Component.StoredProps (fields.filter fun field => isProp field.1) := by
  constructor
  · exact h.1.filter _
  · have hall : forall fields, Json.WellFormedFields fields ->
        Json.WellFormedFields (fields.filter fun field => isProp field.1) := by
      intro fields hformed
      induction fields with
      | nil => exact True.intro
      | cons field fields ih =>
          rw [List.filter_cons]
          split
          · exact ⟨hformed.1, ih hformed.2⟩
          · exact ih hformed.2
    exact hall fields h.2
  · intro field hmem
    exact (List.mem_filter.1 hmem).2

section Components

variable {setting : Setting}

theorem stored_of_filled {fields : List (String × Json)} {c : Component}
    (h : (Json.object fields).Stored)
    (hcomponent : forall field, field ∈ fields ->
      forall c, component setting field.2 = .ok c -> c.Stored)
    (hchildren : forall field, field ∈ fields ->
      forall cs, childrenOf setting field.2 = .ok cs -> Component.StoredChildren cs)
    (hfilled : Filled setting (Component.blank "") fields c) : c.Stored := by
  rcases c with ⟨id, kind, visible, shown, source, template, children, props⟩
  have hvisible : forall field, field ∈ fields ->
      forall v, visibleIf field.2 = .ok v -> v.Stored := by
    intro field hmem v hv
    exact stored_visibleIf (h.of_mem_fields field hmem) hv
  have hitems : forall field, field ∈ fields ->
      forall found, items field.2 = .ok found -> found.Stored := by
    intro field hmem found hfound
    exact stored_items (h.of_mem_fields field hmem) hfound
  refine ⟨of_taken_unlessNull hvisible hfilled.visibleIf,
    of_taken_unlessNull hitems hfilled.items, ?_, ?_, ?_⟩
  · cases template with
    | none => exact True.intro
    | some t => exact of_taken_unlessNull hcomponent hfilled.template t rfl
  · have htaken := hfilled.children
    unfold Taken at htaken
    split at htaken
    · next json hfind =>
        exact hchildren ("children", json) (Fields.mem_of_find? hfind) children htaken
    · cases htaken
      exact True.intro
  · have hprops : props = fields.filter fun field => isProp field.1 := hfilled.props
    rw [hprops]
    exact storedProps_filter h.wellFormed

mutual

theorem stored_component {json : Json} {c : Component} (h : json.Stored)
    (hok : component setting json = .ok c) : c.Stored := by
  cases json with
  | object fields =>
      have hfields := stored_fields fields h.of_mem_fields
      apply stored_of_filled h
      · intro field hmem
        exact (hfields field hmem).1
      · intro field hmem
        exact (hfields field hmem).2
      · exact ((component_eq_ok_iff h.wellFormed.1).1 hok).1
  | array items => cases hok
  | text s => cases hok
  | null => cases hok
  | bool b => cases hok
  | int n => cases hok
  | float f => cases hok

theorem stored_fields (fields : List (String × Json))
    (h : forall field, field ∈ fields -> field.2.Stored) :
    forall field, field ∈ fields ->
      (forall c, component setting field.2 = .ok c -> c.Stored) ∧
        forall cs, childrenOf setting field.2 = .ok cs -> Component.StoredChildren cs := by
  cases fields with
  | nil =>
      intro field hmem
      cases hmem
  | cons first fields =>
      have hfirst : first.2.Stored := h first List.mem_cons_self
      intro field hmem
      rcases List.mem_cons.1 hmem with heq | hmem
      · rw [heq]
        constructor
        · intro c hok
          exact stored_component hfirst hok
        · intro cs hok
          exact stored_childrenOf hfirst hok
      · exact stored_fields fields (fun other hother => h other (List.mem_cons_of_mem _ hother))
          field hmem

theorem stored_childrenOf {json : Json} {cs : List Component} (h : json.Stored)
    (hok : childrenOf setting json = .ok cs) : Component.StoredChildren cs := by
  cases json with
  | array items => exact stored_components items h.of_mem_items hok
  | object fields => cases hok
  | text s => cases hok
  | null => cases hok
  | bool b => cases hok
  | int n => cases hok
  | float f => cases hok

theorem stored_components (items : List Json) {cs : List Component}
    (h : forall item, item ∈ items -> item.Stored)
    (hok : components setting items = .ok cs) : Component.StoredChildren cs := by
  cases items with
  | nil =>
      cases hok
      exact True.intro
  | cons item items =>
      rw [components, bind_eq_ok_iff] at hok
      rcases hok with ⟨c, hc, hok⟩
      rcases bind_eq_ok_iff.1 hok with ⟨cs', hcs, hok⟩
      cases hok
      constructor
      · exact stored_component (h item List.mem_cons_self) hc
      · exact stored_components items (fun other hother => h other (List.mem_cons_of_mem _ hother))
          hcs

end

end Components

/-! ## Surfaces and messages -/

theorem taken_of_field {α : Type} {decode : Json -> Except DecodeError α} {default : α}
    {fields : List (String × Json)} {name : String} {o : Option α}
    (h : field fields name decode = .ok o) : Taken fields name decode default (o.getD default) := by
  unfold field at h
  unfold Taken
  cases hfind : Fields.find? fields name with
  | none =>
      rw [hfind] at h
      cases h
      rfl
  | some json =>
      rw [hfind] at h
      rcases map_eq_ok_iff.1 h with ⟨a, ha, rfl⟩
      exact ha

theorem taken_of_surfaceFields {fields : List (String × Json)} {s : Surface}
    (hok : surface (.object fields) = .ok s) :
    Taken fields "components" (childrenOf .inMessage) [] s.components := by
  rw [surface] at hok
  rcases bind_eq_ok_iff.1 hok with ⟨children, hchildren, hok⟩
  rcases bind_eq_ok_iff.1 hok with ⟨id?, _, hok⟩
  rcases bind_eq_ok_iff.1 hok with ⟨title, _, hok⟩
  rcases bind_eq_ok_iff.1 hok with ⟨id, _, hok⟩
  cases hok
  exact taken_of_field hchildren

/-- A surface that is a list has its components third, after its name and its title. -/
theorem cases_of_surfaceItems {items : List Json} {s : Surface}
    (hok : surface (.array items) = .ok s) :
    (items.length ≤ 2 ∧ s.components = []) ∨
      exists id title list rest, items = id :: title :: list :: rest ∧
        childrenOf .inMessage list = .ok s.components := by
  rw [surface] at hok
  rcases bind_eq_ok_iff.1 hok with ⟨⟨id, afterId⟩, hid, hok⟩
  rcases bind_eq_ok_iff.1 hok with ⟨⟨title, afterTitle⟩, htitle, hok⟩
  rcases bind_eq_ok_iff.1 hok with ⟨⟨children, rest⟩, hchildren, hok⟩
  rcases bind_eq_ok_iff.1 hok with ⟨_, _, hok⟩
  cases hok
  rcases eq_cons_of_firstPart hid with ⟨idItem, rfl, _⟩
  rcases cases_of_part htitle with ⟨rfl, rfl, _⟩ | ⟨titleItem, rfl, _⟩
  · cases hchildren
    exact .inl ⟨by simp, rfl⟩
  · rcases cases_of_part hchildren with ⟨rfl, _, rfl⟩ | ⟨list, rfl, hlist⟩
    · exact .inl ⟨by simp, rfl⟩
    · exact .inr ⟨idItem, titleItem, list, rest, rfl, hlist⟩

theorem stored_surface {json : Json} {found : Surface} (h : json.Stored)
    (hok : surface json = .ok found) : Component.StoredChildren found.components := by
  cases json with
  | object fields =>
      have htaken := taken_of_surfaceFields hok
      unfold Taken at htaken
      split at htaken
      · next json hfind => exact stored_childrenOf (stored_of_find? h.of_mem_fields hfind) htaken
      · rw [htaken]
        exact True.intro
  | array items =>
      rcases cases_of_surfaceItems hok with ⟨_, hnone⟩ | ⟨id, title, list, rest, rfl, hlist⟩
      · rw [hnone]
        exact True.intro
      · exact stored_childrenOf (h.of_mem_items list (by simp)) hlist
  | text s => cases hok
  | null => cases hok
  | bool b => cases hok
  | int n => cases hok
  | float f => cases hok

theorem surface_of_messageOfFields {fields : List (String × Json)} {m : Message}
    (hok : messageOfFields .surfaceUpdate fields = .ok m) :
    exists s doc, m = .surfaceUpdate s ∧ Fields.find? fields "surface" = some doc ∧
      surface doc = .ok s := by
  rcases bind_eq_ok_iff.1 hok with ⟨found?, hfound?, hok⟩
  rcases bind_eq_ok_iff.1 hok with ⟨found, hfound, hok⟩
  cases hok
  unfold field at hfound?
  split at hfound?
  · next doc hfind =>
      rcases map_eq_ok_iff.1 hfound? with ⟨decoded, hdecoded, rfl⟩
      cases hfound
      exact ⟨found, doc, rfl, hfind, hdecoded⟩
  · cases hfound?
    cases hfound

theorem surface_of_messageOfItems {items : List Json} {m : Message}
    (hok : messageOfItems .surfaceUpdate items = .ok m) :
    exists s doc left, m = .surfaceUpdate s ∧ items = doc :: left ∧ surface doc = .ok s := by
  rcases bind_eq_ok_iff.1 hok with ⟨⟨found, left⟩, hfound, hok⟩
  rcases bind_eq_ok_iff.1 hok with ⟨_, _, hok⟩
  cases hok
  rcases eq_cons_of_firstPart hfound with ⟨doc, hitems, hdoc⟩
  exact ⟨found, doc, left, rfl, hitems, hdoc⟩

theorem stored_messageOfFields {kind : Message.Kind} {fields : List (String × Json)} {m : Message}
    (h : forall field, field ∈ fields -> field.2.Stored)
    (hok : messageOfFields kind fields = .ok m) : m.Stored := by
  cases kind with
  | surfaceUpdate =>
      rcases surface_of_messageOfFields hok with ⟨found, doc, rfl, hfind, hdoc⟩
      exact stored_surface (stored_of_find? h hfind) hdoc
  | dataModelUpdate =>
      rw [messageOfFields] at hok
      rcases bind_eq_ok_iff.1 hok with ⟨data, hdata, hok⟩
      rcases bind_eq_ok_iff.1 hok with ⟨path, _, hok⟩
      cases hok
      cases data with
      | none => exact ⟨True.intro, True.intro⟩
      | some data => exact storedOperand_of_field h hdata data rfl
  | deleteSurface =>
      rw [messageOfFields] at hok
      rcases bind_eq_ok_iff.1 hok with ⟨id?, _, hok⟩
      rcases bind_eq_ok_iff.1 hok with ⟨id, _, hok⟩
      cases hok
      exact True.intro
  | beginRendering =>
      rw [messageOfFields] at hok
      rcases bind_eq_ok_iff.1 hok with ⟨id, _, hok⟩
      cases hok
      exact True.intro

theorem stored_messageOfItems {kind : Message.Kind} {items : List Json} {m : Message}
    (h : forall item, item ∈ items -> item.Stored)
    (hok : messageOfItems kind items = .ok m) : m.Stored := by
  cases kind with
  | surfaceUpdate =>
      rcases surface_of_messageOfItems hok with ⟨found, doc, left, rfl, rfl, hdoc⟩
      exact stored_surface (h doc List.mem_cons_self) hdoc
  | dataModelUpdate =>
      rw [messageOfItems] at hok
      rcases bind_eq_ok_iff.1 hok with ⟨⟨path, left⟩, hpath, hok⟩
      have hleft := left_of_part h hpath
      rcases bind_eq_ok_iff.1 hok with ⟨⟨data, rest⟩, hdata, hok⟩
      rcases bind_eq_ok_iff.1 hok with ⟨_, _, hok⟩
      cases hok
      rcases cases_of_part hdata with ⟨_, _, hnone⟩ | ⟨item, rfl, hitem⟩
      · rw [hnone]
        exact ⟨True.intro, True.intro⟩
      · cases hitem
        exact Value.stored_ofJson (hleft item List.mem_cons_self)
  | deleteSurface =>
      rw [messageOfItems] at hok
      rcases bind_eq_ok_iff.1 hok with ⟨⟨id, left⟩, _, hok⟩
      rcases bind_eq_ok_iff.1 hok with ⟨_, _, hok⟩
      cases hok
      exact True.intro
  | beginRendering =>
      rw [messageOfItems] at hok
      rcases bind_eq_ok_iff.1 hok with ⟨⟨id, left⟩, _, hok⟩
      rcases bind_eq_ok_iff.1 hok with ⟨_, _, hok⟩
      cases hok
      exact True.intro

theorem stored_message {json : Json} {m : Message} (h : json.Stored)
    (hok : message json = .ok m) : m.Stored := by
  cases json with
  | object fields =>
      rw [message] at hok
      rcases bind_eq_ok_iff.1 hok with ⟨tag?, _, hok⟩
      rcases bind_eq_ok_iff.1 hok with ⟨tag, _, hok⟩
      exact stored_messageOfFields h.of_mem_fields hok
  | array items =>
      cases items with
      | nil => cases hok
      | cons tag items =>
          rw [message] at hok
          rcases bind_eq_ok_iff.1 hok with ⟨kind, _, hok⟩
          apply stored_messageOfItems _ hok
          intro item hmem
          exact h.of_mem_items item (List.mem_cons_of_mem _ hmem)
  | text s => cases hok
  | null => cases hok
  | bool b => cases hok
  | int n => cases hok
  | float f => cases hok

end Decode
end SurfaceFeed
