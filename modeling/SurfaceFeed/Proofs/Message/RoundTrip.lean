import SurfaceFeed.Message.Encode
import SurfaceFeed.Proofs.Message.Kept

/-!
# Messages and their documents

## What is written is read back

A message is written with the fields of each part in a fixed order, and kept as
data with its fields in ascending order.  Reading goes by names, so the order
does not matter; a part that was not written takes the default that it had, and
a part that was written is decoded to itself.
-/

namespace SurfaceFeed

open Encode (FieldList optional)

/-! ## Looking up what was written -/

@[simp] theorem Json.find?_sortedFields (fields : FieldList) (name : String) :
    Fields.find? (sortedFields fields) name = (Fields.find? fields name).map sorted := by
  induction fields with
  | nil => rfl
  | cons field fields ih =>
      rw [sortedFields, Fields.find?_cons, Fields.find?_cons, ih]
      split <;> rfl

@[simp] theorem Json.sortedFields_reverse (fields : FieldList) :
    (sortedFields fields).reverse = sortedFields fields.reverse := by
  induction fields with
  | nil => rfl
  | cons field fields ih =>
      rw [sortedFields, List.reverse_cons, ih, List.reverse_cons, sortedFields_append]
      rfl

/-- In the document as data a name has the value that was written for it last. -/
theorem Json.find?_sorted (fields : FieldList) (name : String) :
    Fields.find? (Fields.ofList (sortedFields fields)) name =
      (Fields.find? fields.reverse name).map sorted := by
  rw [Fields.find?_ofList, sortedFields_reverse, find?_sortedFields]

namespace Encode

@[simp] theorem reverse_optional {α : Type} (name : String) (encode : α -> Json) (value : Option α) :
    (optional name encode value).reverse = optional name encode value := by
  cases value <;> rfl

@[simp] theorem find?_optional {α : Type} (name other : String) (encode : α -> Json) (value : Option α) :
    Fields.find? (optional name encode value) other =
      if name = other then value.map encode else none := by
  cases value with
  | none => exact (ite_self none).symm
  | some value => rfl

theorem name_of_mem_optional {α : Type} {name : String} {encode : α -> Json} {value : Option α}
    {field : String × Json} (h : field ∈ optional name encode value) : field.1 = name := by
  cases value with
  | none => cases h
  | some value => rw [List.mem_singleton.1 h]

end Encode

namespace Decode

section Parts

variable {α : Type} {fields : List (String × Json)} {name : String}

theorem field_of_find? {decode : Json -> Except DecodeError α} {encode : α -> Json} {o : Option α}
    (hfind : Fields.find? fields name = o.map encode)
    (hdecode : forall a, o = some a -> decode (encode a) = .ok a) :
    field fields name decode = .ok o := by
  unfold field
  rw [hfind]
  cases o with
  | none => rfl
  | some a =>
      show (decode (encode a)).map some = .ok (some a)
      rw [hdecode a rfl]
      rfl

theorem field_text {text? : Option String} (hfind : Fields.find? fields name = text?.map .text) :
    field fields name text = .ok text? :=
  field_of_find? hfind fun _ _ => rfl

theorem field_optionalText {text? : Option String}
    (hfind : Fields.find? fields name = text?.map .text) :
    field fields name optionalText = .ok (text?.map some) := by
  unfold field
  rw [hfind]
  cases text? <;> rfl

@[simp] theorem join_map_some (o : Option α) : (o.map some).join = o := by
  cases o <;> rfl

theorem taken_of_find? {decode : Json -> Except DecodeError (Option α)} {encode : α -> Json}
    {o : Option α} (hfind : Fields.find? fields name = o.map encode)
    (hdecode : forall a, o = some a -> decode (encode a) = .ok (some a)) :
    Taken fields name decode none o := by
  unfold Taken
  rw [hfind]
  cases o with
  | none => rfl
  | some a => exact hdecode a rfl

end Parts

/-! ## Conditions, content and items -/

theorem operand_encode {fields : List (String × Json)} {name : String} {operand : Option Value}
    (h : StoredOperand operand)
    (hfind : Fields.find? fields name = operand.map fun value => value.toJson.sorted) :
    field fields name value = .ok operand := by
  apply field_of_find? hfind
  intro v hv
  show Except.ok (Value.ofJson v.toJson.sorted) = .ok v
  rw [(h v hv).ofJson_sorted]

theorem condition_encode {c : Condition} (h : c.Stored) :
    visibleIf (Encode.condition c).sorted = .ok (.condition c) := by
  have hfind := Json.find?_sorted
    ([("path", .text c.path)] ++ optional "expr" .text c.expr ++
      optional "eq" Value.toJson c.eq ++ optional "neq" Value.toJson c.neq ++
      optional "gt" Value.toJson c.gt ++ optional "gte" Value.toJson c.gte ++
      optional "lt" Value.toJson c.lt ++ optional "lte" Value.toJson c.lte)
  unfold Encode.condition
  rw [Json.sorted]
  simp only [List.reverse_append, Encode.reverse_optional, Fields.find?_append,
    Encode.find?_optional] at hfind
  generalize Fields.ofList _ = fields at hfind ⊢
  have hpath : field fields "path" text = .ok (some c.path) := by
    apply field_text
    rw [hfind]
    simp [Fields.find?, Json.sorted]
  have hexpr : field fields "expr" optionalText = .ok (c.expr.map some) := by
    apply field_optionalText
    rw [hfind]
    simp [Fields.find?]
    rfl
  have heq : field fields "eq" value = .ok c.eq := by
    apply operand_encode h.eq
    rw [hfind]
    simp [Fields.find?]
    rfl
  have hneq : field fields "neq" value = .ok c.neq := by
    apply operand_encode h.neq
    rw [hfind]
    simp [Fields.find?]
    rfl
  have hgt : field fields "gt" value = .ok c.gt := by
    apply operand_encode h.gt
    rw [hfind]
    simp [Fields.find?]
    rfl
  have hgte : field fields "gte" value = .ok c.gte := by
    apply operand_encode h.gte
    rw [hfind]
    simp [Fields.find?]
    rfl
  have hlt : field fields "lt" value = .ok c.lt := by
    apply operand_encode h.lt
    rw [hfind]
    simp [Fields.find?]
    rfl
  have hlte : field fields "lte" value = .ok c.lte := by
    apply operand_encode h.lte
    rw [hfind]
    simp [Fields.find?]
    rfl
  have hcondition : conditionOfFields fields = .ok c := by
    unfold conditionOfFields
    rw [hpath, hexpr, heq, hneq, hgt, hgte, hlt, hlte]
    show Except.ok (Condition.mk c.path (c.expr.map some).join c.eq c.neq c.gt c.gte c.lt c.lte) = _
    rw [join_map_some]
  rw [visibleIf, hcondition]

theorem visibleIf_encode {v : VisibleIf} (h : v.Stored) :
    unlessNull visibleIf (Encode.visibleIf v).sorted = .ok (some v) := by
  cases v with
  | path pointer => rfl
  | condition c =>
      show (visibleIf (Encode.condition c).sorted).map some = _
      rw [condition_encode h]
      rfl

theorem content_encode (setting : Setting) (c : Content) :
    unlessNull (content setting) (Encode.content c).sorted = .ok (some c) := by
  have hfind := Json.find?_sorted ([("path", .text c.path)] ++ optional "expr" .text c.expr)
  simp only [List.reverse_append, Encode.reverse_optional, Fields.find?_append,
    Encode.find?_optional] at hfind
  show (content setting (Encode.content c).sorted).map some = _
  unfold Encode.content
  rw [Json.sorted]
  generalize Fields.ofList _ = fields at hfind ⊢
  have hpath : field fields "path" text = .ok (some c.path) := by
    apply field_text
    rw [hfind]
    simp [Fields.find?, Json.sorted]
  have hexpr : field fields "expr" optionalText = .ok (c.expr.map some) := by
    apply field_optionalText
    rw [hfind]
    simp [Fields.find?]
    rfl
  rw [content, hexpr, hpath]
  show Except.ok (some (Content.mk c.path (c.expr.map some).join)) = _
  rw [join_map_some]

theorem items_encode {source : Items} (h : source.Stored) :
    unlessNull items (Encode.items source).sorted = .ok (some source) := by
  cases source with
  | path pointer => rfl
  | inline values =>
      have hsorted : Json.sortedItems (Value.toJsonItems values) = Value.toJsonItems values :=
        Json.sortedItems_of_wellFormed (Value.wellFormedItems_toJson h.1 h.2)
      have hvalues : Value.ofJsonItems (Value.toJsonItems values) = values :=
        Value.ofJsonItems_toJsonItems h.2
      show Except.ok (some (Items.inline (Value.ofJsonItems (Json.sortedItems _)))) = _
      rw [hsorted, hvalues]

/-! ## Components -/

theorem reverse_templateField (template : Option Component) :
    (Encode.templateField template).reverse = Encode.templateField template := by
  cases template <;> rfl

theorem find?_templateField (template : Option Component) (name : String) :
    Fields.find? (Encode.templateField template) name =
      if "template" = name then template.map Encode.component else none := by
  cases template with
  | none => exact (ite_self none).symm
  | some template => rfl

theorem reverse_childrenField (children : List Json) :
    (Encode.childrenField children).reverse = Encode.childrenField children := by
  cases children <;> rfl

theorem find?_childrenField (children : List Json) (name : String) :
    Fields.find? (Encode.childrenField children) name =
      if "children" = name ∧ children ≠ [] then some (.array children) else none := by
  cases children with
  | nil =>
      rw [if_neg (fun h => h.2 rfl)]
      rfl
  | cons child children =>
      by_cases hname : "children" = name
      · rw [if_pos ⟨hname, List.cons_ne_nil child children⟩, Encode.childrenField,
          Fields.find?_cons, if_pos hname]
      · rw [if_neg (fun h => hname h.1), Encode.childrenField, Fields.find?_cons, if_neg hname]
        rfl

def ownFields (c : Component) : FieldList :=
  optional "id" .text c.id ++ [("type", .text c.kind)] ++
    optional "visibleIf" Encode.visibleIf c.visibleIf ++
    optional "contentExpr" Encode.content c.content ++ optional "items" Encode.items c.items ++
    Encode.templateField c.template ++ Encode.childrenField (Encode.components c.children)

theorem component_eq (c : Component) :
    Encode.component c = .object (ownFields c ++ c.props) := by
  cases c
  rw [Encode.component]
  rfl

theorem isProp_of_mem_ownFields {c : Component} {field : String × Json}
    (h : field ∈ ownFields c) : Component.isProp field.1 = false := by
  unfold ownFields at h
  simp only [List.mem_append, List.mem_singleton] at h
  rcases h with (((((h | h) | h) | h) | h) | h) | h
  · rw [Encode.name_of_mem_optional h]
    rfl
  · rw [h]
    rfl
  · rw [Encode.name_of_mem_optional h]
    rfl
  · rw [Encode.name_of_mem_optional h]
    rfl
  · rw [Encode.name_of_mem_optional h]
    rfl
  · cases htemplate : c.template with
    | none =>
        rw [htemplate] at h
        cases h
    | some template =>
        rw [htemplate] at h
        rw [List.mem_singleton.1 h]
        rfl
  · cases hchildren : Encode.components c.children with
    | nil =>
        rw [hchildren] at h
        cases h
    | cons child children =>
        rw [hchildren] at h
        rw [List.mem_singleton.1 h]
        rfl

theorem map_sorted_find? {props : List (String × Json)} (h : Component.StoredProps props)
    (name : String) : (Fields.find? props name).map Json.sorted = Fields.find? props name := by
  rw [← Json.find?_sortedFields, Json.sortedFields_of_wellFormed h.wellFormed]

/-- A name of the component's own is looked up in its own fields, any other in its properties. -/
theorem find?_component {c : Component} (h : Component.StoredProps c.props) (name : String) :
    Fields.find? (Fields.ofList (Json.sortedFields (ownFields c ++ c.props))) name =
      if Component.isProp name then Fields.find? c.props name
      else (Fields.find? (ownFields c).reverse name).map Json.sorted := by
  rw [Json.find?_sorted, List.reverse_append, Fields.find?_append, h.ascending.find?_reverse]
  split
  · next hprop =>
      have hnone : Fields.find? (ownFields c).reverse name = none := by
        apply Fields.find?_eq_none
        intro field hmem hname
        have hown := isProp_of_mem_ownFields (List.mem_reverse.1 hmem)
        rw [hname, hprop] at hown
        cases hown
      rw [hnone, Option.or_none, map_sorted_find? h]
  · next hown =>
      have hnone : Fields.find? c.props name = none := by
        apply Fields.find?_eq_none
        intro field hmem hname
        have hprop := h.isProp field hmem
        rw [hname] at hprop
        exact hown hprop
      rw [hnone, Option.none_or]

section Components

variable {setting : Setting} {c : Component}

theorem filled_of_find? {fields : List (String × Json)} (h : c.Stored)
    (hascending : Fields.Ascending fields)
    (hfind : forall name, Fields.find? fields name =
      if Component.isProp name then Fields.find? c.props name
      else (Fields.find? (ownFields c).reverse name).map Json.sorted)
    (htemplate : forall template, c.template = some template ->
      component setting (Encode.component template).sorted = .ok template)
    (hchildren : components setting (Json.sortedItems (Encode.components c.children)) =
      .ok c.children) :
    Filled setting (Component.blank "") fields c := by
  have hown : forall own, Component.isProp own = false ->
      Fields.find? fields own = (Fields.find? (ownFields c).reverse own).map Json.sorted := by
    intro own hown
    rw [hfind, hown]
    rfl
  rcases c with ⟨id, kind, visible, shown, source, template, children, props⟩
  rcases h with ⟨hvisible, hitems, _, _, hprops⟩
  simp only [ownFields, List.reverse_append, Fields.find?_append, Encode.reverse_optional,
    reverse_templateField, reverse_childrenField, Encode.find?_optional, find?_templateField,
    find?_childrenField] at hown
  constructor
  · have hid : Fields.find? fields "id" = id.map .text := by
      rw [hown "id" rfl]
      simp [Fields.find?]
      rfl
    exact taken_of_find? hid fun text _ => rfl
  · have hkind : Fields.find? fields "type" = some (.text kind) := by
      rw [hown "type" rfl]
      simp [Fields.find?, Json.sorted]
    unfold Taken
    rw [hkind]
    rfl
  · have hvis : Fields.find? fields "visibleIf" =
        visible.map fun v => (Encode.visibleIf v).sorted := by
      rw [hown "visibleIf" rfl]
      simp [Fields.find?]
      rfl
    exact taken_of_find? hvis fun v hv => visibleIf_encode (hvisible v hv)
  · have hcontent : Fields.find? fields "contentExpr" =
        shown.map fun content => (Encode.content content).sorted := by
      rw [hown "contentExpr" rfl]
      simp [Fields.find?]
      rfl
    exact taken_of_find? hcontent fun content _ => content_encode setting content
  · have hsource : Fields.find? fields "items" =
        source.map fun items => (Encode.items items).sorted := by
      rw [hown "items" rfl]
      simp [Fields.find?]
      rfl
    exact taken_of_find? hsource fun items h => items_encode (hitems items h)
  · have htemp : Fields.find? fields "template" =
        template.map fun t => (Encode.component t).sorted := by
      rw [hown "template" rfl]
      simp [Fields.find?]
      rfl
    apply taken_of_find? htemp
    intro t ht
    have hobject : isNull (Encode.component t).sorted = false := by
      rw [component_eq]
      rfl
    unfold unlessNull
    rw [hobject, htemplate t ht]
    rfl
  · have hchild : Fields.find? fields "children" =
        if Encode.components children ≠ [] then
          some (.array (Json.sortedItems (Encode.components children))) else none := by
      rw [hown "children" rfl]
      by_cases hnil : Encode.components children = []
      · simp [Fields.find?, hnil]
      · simp [Fields.find?, hnil, Json.sorted]
    unfold Taken
    rw [hchild]
    by_cases hnil : Encode.components children = []
    · rw [if_neg (not_not_intro hnil)]
      cases children with
      | nil => rfl
      | cons child children => cases hnil
    · rw [if_pos hnil]
      exact hchildren
  · show props = [] ++ fields.filter fun field => Component.isProp field.1
    rw [List.nil_append]
    apply hprops.ascending.ext (hascending.filter _)
    intro name
    rw [Fields.find?_filter, hfind]
    split
    · rfl
    · next hname =>
        apply Fields.find?_eq_none
        intro field hmem heq
        have hprop := hprops.isProp field hmem
        rw [heq] at hprop
        exact hname hprop

theorem component_encode_of (h : c.Stored)
    (htemplate : forall template, c.template = some template ->
      component setting (Encode.component template).sorted = .ok template)
    (hchildren : components setting (Json.sortedItems (Encode.components c.children)) =
      .ok c.children) :
    component setting (Encode.component c).sorted = .ok c := by
  have hprops : Component.StoredProps c.props := by
    cases c
    exact h.2.2.2.2
  have hascending := Fields.ascending_ofList (Json.sortedFields (ownFields c ++ c.props))
  have hfind := find?_component hprops
  have hkind : (Fields.find? (ownFields c).reverse "type").isSome = true := by
    unfold ownFields
    simp [Fields.find?_append, Fields.find?]
  rw [component_eq, Json.sorted, component_eq_ok_iff hascending]
  constructor
  · exact filled_of_find? h hascending hfind htemplate hchildren
  · rw [hfind, if_neg (by decide), Option.isNone_map, ← Option.not_isSome, hkind]
    rfl

mutual

theorem component_encode (c : Component) (h : c.Stored) :
    component setting (Encode.component c).sorted = .ok c := by
  cases c with
  | mk id kind visible shown source template children props =>
      apply component_encode_of h
      · exact template_encode template h.2.2.1
      · exact components_encode children h.2.2.2.1

theorem template_encode (template : Option Component) (h : Component.StoredTemplate template) :
    forall found, template = some found ->
      component setting (Encode.component found).sorted = .ok found := by
  intro found hfound
  cases template with
  | none => cases hfound
  | some template =>
      rw [← Option.some.inj hfound]
      exact component_encode template h

theorem components_encode (cs : List Component) (h : Component.StoredChildren cs) :
    components setting (Json.sortedItems (Encode.components cs)) = .ok cs := by
  cases cs with
  | nil => rfl
  | cons c cs =>
      rw [Encode.components, Json.sortedItems, components, component_encode c h.1,
        components_encode cs h.2]
      rfl

end

end Components

/-! ## Surfaces and messages -/

theorem surface_encode {s : Surface} (h : Component.StoredChildren s.components) :
    surface (Encode.surface s).sorted = .ok s := by
  have hfind := Json.find?_sorted
    ([("id", .text s.id)] ++ optional "title" .text s.title ++
      [("components", .array (Encode.components s.components))])
  simp only [List.reverse_append, Encode.reverse_optional, Fields.find?_append,
    Encode.find?_optional] at hfind
  unfold Encode.surface
  rw [Json.sorted]
  generalize Fields.ofList _ = fields at hfind ⊢
  have hcomponents : field fields "components" (childrenOf .inMessage) = .ok (some s.components) := by
    have hfound : Fields.find? fields "components" =
        some (.array (Json.sortedItems (Encode.components s.components))) := by
      rw [hfind]
      simp [Fields.find?, Json.sorted]
    unfold field
    rw [hfound]
    show (components .inMessage (Json.sortedItems (Encode.components s.components))).map some = _
    rw [components_encode s.components h]
    rfl
  have hid : field fields "id" text = .ok (some s.id) := by
    apply field_text
    rw [hfind]
    simp [Fields.find?, Json.sorted]
  have htitle : field fields "title" optionalText = .ok (s.title.map some) := by
    apply field_optionalText
    rw [hfind]
    simp [Fields.find?]
    rfl
  rw [surface, hcomponents, hid, htitle]
  show Except.ok (Surface.mk s.id (s.title.map some).join s.components) = _
  rw [join_map_some]

theorem message_encode {m : Message} (h : m.Stored) :
    message (Encode.message m).sorted = .ok m := by
  have hfind := Json.find?_sorted (("type", .text m.kind.name) :: Encode.messageFields m)
  unfold Encode.message
  rw [Json.sorted, message]
  generalize Fields.ofList _ = fields at hfind ⊢
  have hkind : field fields "type" kind = .ok (some m.kind) := by
    have hfound : Fields.find? fields "type" = some (.text m.kind.name) := by
      rw [hfind]
      cases m <;> simp [Encode.messageFields, Fields.find?_append, Fields.find?, Json.sorted,
        Encode.reverse_optional, Encode.find?_optional]
    unfold field
    rw [hfound]
    show (kind (.text m.kind.name)).map some = _
    rw [kind, Message.Kind.ofName?_name]
    rfl
  rw [hkind]
  show messageOfFields m.kind fields = .ok m
  cases m with
  | surfaceUpdate s =>
      have hsurface : field fields "surface" surface = .ok (some s) := by
        have hfound : Fields.find? fields "surface" = some (Encode.surface s).sorted := by
          rw [hfind]
          simp [Encode.messageFields, Fields.find?]
        unfold field
        rw [hfound]
        show (surface (Encode.surface s).sorted).map some = _
        rw [surface_encode h]
        rfl
      rw [Message.kind, messageOfFields, hsurface]
      rfl
  | dataModelUpdate path data =>
      have hstored : StoredOperand (some data) := by
        intro v hv
        cases hv
        exact h
      have hdata : field fields "data" value = .ok (some data) := by
        apply operand_encode hstored
        rw [hfind]
        simp [Encode.messageFields, Fields.find?]
      have hpath : field fields "path" text = .ok (some path) := by
        apply field_text
        rw [hfind]
        simp [Encode.messageFields, Fields.find?, Json.sorted]
      rw [Message.kind, messageOfFields, hdata, hpath]
      rfl
  | deleteSurface id =>
      have hid : field fields "surfaceId" text = .ok (some id) := by
        apply field_text
        rw [hfind]
        simp [Encode.messageFields, Fields.find?, Json.sorted]
      rw [Message.kind, messageOfFields, hid]
      rfl
  | beginRendering id =>
      have hid : field fields "surfaceId" optionalText = .ok (id.map some) := by
        apply field_optionalText
        rw [hfind]
        simp [Encode.messageFields, Fields.find?, Fields.find?_append, Encode.reverse_optional,
          Encode.find?_optional]
        rfl
      rw [Message.kind, messageOfFields, hid]
      show Except.ok (Message.beginRendering (id.map some).join) = _
      rw [join_map_some]

/--
Whatever stored document is accepted as a message, the document of the message is
accepted too, and gives an equal message with the same document.  A component
keeps every field that it does not read itself, as it stands, and is read back
with these fields; the components of an update keep them at every level.
-/
theorem message_roundTrip {v : Json} {m : Message} (h : v.Stored) (hok : message v = .ok m) :
    (exists again, message (Encode.message m).sorted = .ok again ∧ again = m ∧
      (again == m) = true ∧ (Encode.message again).sorted = (Encode.message m).sorted) ∧
    (forall fields c, (Json.object fields).Stored -> component .inMessage (.object fields) = .ok c ->
      c.props = (fields.filter fun field => Component.isProp field.1) ∧
        component .inMessage (Encode.component c).sorted = .ok c) ∧
    forall s, m = .surfaceUpdate s ->
      exists doc, v.surface? = some doc ∧ Component.KeepsAll doc.componentsOf s.components := by
  have hstored : m.Stored := stored_message h hok
  refine ⟨?_, ?_, ?_⟩
  · exact ⟨m, message_encode hstored, rfl, hstored.beq_self, rfl⟩
  · intro fields c hfields hc
    constructor
    · exact ((component_eq_ok_iff hfields.wellFormed.1).1 hc).1.props
    · exact component_encode c (stored_component hfields hc)
  · intro s hs
    rw [hs] at hok
    exact keeps_message h hok

/-- An update with nested components, an operator that is null, and a large number. -/
def listUpdate : Json :=
  .object [
    ("surface", .object [
      ("components", .array [.object [
        ("children", .array [.object [("size", .int 0xffffffffffffffff), ("type", .text "Icon")]]),
        ("items", .array [.int 0xffffffffffffffff]),
        ("template", .object [("type", .text "Row")]),
        ("type", .text "List"),
        ("visibleIf", .object [("eq", .null), ("path", .text "/open")])]]),
      ("id", .text "main")]),
    ("type", .text "surfaceUpdate")]

theorem message_roundTrip_of_listUpdate :
    listUpdate.Stored ∧ exists m, message listUpdate = .ok m ∧
      (exists again, message (Encode.message m).sorted = .ok again ∧ (again == m) = true) ∧
      exists s list icon, m = .surfaceUpdate s ∧ s.components = [list] ∧ list.children = [icon] ∧
        icon.props = [("size", .int 0xffffffffffffffff)] := by
  have hstored : listUpdate.Stored := by
    constructor
    · simp only [listUpdate, Json.WellFormed, Json.WellFormedFields, Json.WellFormedItems,
        Fields.Ascending]
      decide
    · simp only [listUpdate, Json.Bounded, Json.BoundedFields, Json.BoundedItems]
      decide
  have hok : exists s, message listUpdate = .ok (.surfaceUpdate s) := ⟨_, rfl⟩
  rcases hok with ⟨s, hok⟩
  rcases message_roundTrip hstored hok with ⟨⟨again, hagain, _, hsame, _⟩, _, hkept⟩
  refine ⟨hstored, .surfaceUpdate s, hok, ⟨again, hagain, hsame⟩, ?_⟩
  rcases hkept s rfl with ⟨doc, hdoc, hall⟩
  cases hdoc
  -- The list is read from the one component document, and the icon from its one child.
  rcases Component.keepsAll_cons_iff.1 hall with ⟨list, none, hcomponents, hlist, hnone⟩
  rw [Component.keepsAll_nil_iff.1 hnone] at hcomponents
  have hchildren := (Component.keeps_object_iff.1 hlist).2.2
  rcases Component.keepsAll_cons_iff.1 hchildren with ⟨icon, none, hicons, hicon, hnone⟩
  rw [Component.keepsAll_nil_iff.1 hnone] at hicons
  exact ⟨s, list, icon, rfl, hcomponents, hicons, (Component.keeps_object_iff.1 hicon).1⟩

end Decode
end SurfaceFeed
