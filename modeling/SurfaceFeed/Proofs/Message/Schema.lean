import SurfaceFeed.Proofs.Message.Decoded

/-!
# The schema of messages

## What a message must look like

A message is an object that names its type, and the type says which fields it
must have.  A surface, a condition and a content expression are objects too, and
a component has components for its template and its children.  A document that
names all these parts, instead of listing them, is decoded just if it keeps to
this schema.
-/

namespace SurfaceFeed
namespace Schema

def Optional (fields : List (String × Json)) (name : String) (Fits : Json -> Prop) : Prop :=
  forall json, Fields.find? fields name = some json -> Fits json

def Required (fields : List (String × Json)) (name : String) (Fits : Json -> Prop) : Prop :=
  exists json, Fields.find? fields name = some json ∧ Fits json

def IsText : Json -> Prop
  | .text _ => True
  | _ => False

def IsList : Json -> Prop
  | .array _ => True
  | _ => False

def IsListOf (Fits : Json -> Prop) : Json -> Prop
  | .array items => forall item, item ∈ items -> Fits item
  | _ => False

def IsObject (Fits : List (String × Json) -> Prop) : Json -> Prop
  | .object fields => Fits fields
  | _ => False

def NullOr (Fits : Json -> Prop) (json : Json) : Prop :=
  json = .null ∨ Fits json

/-! ## Components -/

/-- A path and perhaps a reduction, as in a condition and in a content expression. -/
structure Reference (fields : List (String × Json)) : Prop where
  path : Required fields "path" IsText
  expr : Optional fields "expr" (NullOr IsText)

def IsVisibleIf (json : Json) : Prop :=
  IsText json ∨ IsObject Reference json

def IsItems (json : Json) : Prop :=
  IsText json ∨ IsList json

/-- The fields of a component beside its template and its children. -/
structure OwnParts (fields : List (String × Json)) : Prop where
  kind : Required fields "type" IsText
  id : Optional fields "id" (NullOr IsText)
  visibleIf : Optional fields "visibleIf" (NullOr IsVisibleIf)
  content : Optional fields "contentExpr" (NullOr (IsObject Reference))
  items : Optional fields "items" (NullOr IsItems)

inductive IsComponent : Json -> Prop where
  | object {fields : List (String × Json)} (own : OwnParts fields)
      (template : forall json, Fields.find? fields "template" = some json -> json ≠ .null ->
        IsComponent json)
      (list : Optional fields "children" IsList)
      (children : forall items, Fields.find? fields "children" = some (.array items) ->
        forall item, item ∈ items -> IsComponent item) :
      IsComponent (.object fields)

/-! ## Surfaces and messages -/

structure SurfaceParts (fields : List (String × Json)) : Prop where
  id : Required fields "id" IsText
  title : Optional fields "title" (NullOr IsText)
  components : Optional fields "components" (IsListOf IsComponent)

def MessageParts (fields : List (String × Json)) : Message.Kind -> Prop
  | .surfaceUpdate => Required fields "surface" (IsObject SurfaceParts)
  | .dataModelUpdate => Optional fields "path" IsText
  | .deleteSurface => Required fields "surfaceId" IsText
  | .beginRendering => Optional fields "surfaceId" (NullOr IsText)

def IsMessage : Json -> Prop :=
  IsObject fun fields => exists kind : Message.Kind,
    Fields.find? fields "type" = some (.text kind.name) ∧ MessageParts fields kind

/-! ## Documents that name their parts

These say nothing of whether the parts fit, only that those which could be
listed are not.
-/

inductive ComponentNamed : Json -> Prop where
  | scalar {json : Json} (h : forall fields, json ≠ .object fields) : ComponentNamed json
  | object {fields : List (String × Json)}
      (visibleIf : forall items, Fields.find? fields "visibleIf" ≠ some (.array items))
      (content : forall items, Fields.find? fields "contentExpr" ≠ some (.array items))
      (template : forall json, Fields.find? fields "template" = some json -> ComponentNamed json)
      (children : forall items, Fields.find? fields "children" = some (.array items) ->
        forall item, item ∈ items -> ComponentNamed item) :
      ComponentNamed (.object fields)

structure SurfaceNamed (json : Json) : Prop where
  surface : forall items, json ≠ .array items
  components : forall fields items, json = .object fields ->
    Fields.find? fields "components" = some (.array items) ->
      forall item, item ∈ items -> ComponentNamed item

structure MessageNamed (json : Json) : Prop where
  message : forall items, json ≠ .array items
  surface : forall fields surface, json = .object fields ->
    Fields.find? fields "type" = some (.text Message.Kind.surfaceUpdate.name) ->
      Fields.find? fields "surface" = some surface -> SurfaceNamed surface

section Fields

variable {fields : List (String × Json)} {name : String} {P Q : Json -> Prop}

theorem optional_congr
    (h : forall json, Fields.find? fields name = some json -> (P json ↔ Q json)) :
    Optional fields name P ↔ Optional fields name Q := by
  constructor
  · intro hfits json hfind
    exact (h json hfind).1 (hfits json hfind)
  · intro hfits json hfind
    exact (h json hfind).2 (hfits json hfind)

theorem required_congr
    (h : forall json, Fields.find? fields name = some json -> (P json ↔ Q json)) :
    Required fields name P ↔ Required fields name Q := by
  constructor
  · intro hfits
    rcases hfits with ⟨json, hfind, hjson⟩
    exact ⟨json, hfind, (h json hfind).1 hjson⟩
  · intro hfits
    rcases hfits with ⟨json, hfind, hjson⟩
    exact ⟨json, hfind, (h json hfind).2 hjson⟩

theorem required_iff :
    Required fields name P ↔
      (Fields.find? fields name).isNone = false ∧ Optional fields name P := by
  unfold Required Optional
  cases Fields.find? fields name with
  | none => simp
  | some json => simp

theorem isComponent_object_iff :
    IsComponent (.object fields) ↔
      OwnParts fields ∧ Optional fields "template" (NullOr IsComponent) ∧
        Optional fields "children" (IsListOf IsComponent) := by
  constructor
  · intro h
    cases h with
    | object own template list children =>
        refine ⟨own, ?_, ?_⟩
        · intro json hfind
          by_cases hnull : json = .null
          · exact .inl hnull
          · exact .inr (template json hfind hnull)
        · intro json hfind
          have hlist : IsList json := list json hfind
          cases json with
          | array items => exact children items hfind
          | _ => exact hlist.elim
  · intro h
    rcases h with ⟨own, htemplate, hchildren⟩
    refine .object own ?_ ?_ ?_
    · intro json hfind hnull
      exact (htemplate json hfind).resolve_left hnull
    · intro json hfind
      have hlist : IsListOf IsComponent json := hchildren json hfind
      cases json with
      | array items => exact True.intro
      | _ => exact hlist.elim
    · intro items hfind
      exact hchildren (.array items) hfind

end Fields

end Schema

namespace Decode

open Schema

/-! ## What the decoders accept -/

def Accepts {α : Type} (decode : Json -> Except DecodeError α) (json : Json) : Prop :=
  exists a, decode json = .ok a

section Fields

variable {α : Type} {fields : List (String × Json)} {name : String}
  {decode : Json -> Except DecodeError α}

theorem exists_field_iff :
    (exists value, field fields name decode = .ok value) ↔
      Optional fields name (Accepts decode) := by
  unfold field Optional
  cases Fields.find? fields name with
  | none => simp
  | some json => simp [Accepts, map_eq_ok_iff]

theorem exists_required_iff :
    (exists value, field fields name decode = .ok value ∧
      exists a, required name value = .ok a) ↔
        Required fields name (Accepts decode) := by
  unfold field Required
  cases Fields.find? fields name with
  | none => simp [required]
  | some json => simp [Accepts, map_eq_ok_iff, required]

theorem exists_taken_iff {default : α} :
    (exists value, Taken fields name decode default value) ↔
      Optional fields name (Accepts decode) := by
  unfold Taken Optional
  cases Fields.find? fields name with
  | none => simp
  | some json => simp [Accepts]

end Fields

theorem accepts_text {json : Json} : Accepts text json ↔ IsText json := by
  cases json <;> simp [Accepts, text, IsText]

theorem accepts_optionalText {json : Json} : Accepts optionalText json ↔ NullOr IsText json := by
  cases json <;> simp [Accepts, optionalText, NullOr, IsText]

theorem accepts_items {json : Json} : Accepts items json ↔ IsItems json := by
  cases json <;> simp [Accepts, items, IsItems, IsText, IsList]

theorem accepts_unlessNull {α : Type} {decode : Json -> Except DecodeError α} {json : Json} :
    Accepts (unlessNull decode) json ↔ NullOr (Accepts decode) json := by
  cases json <;> simp [Accepts, unlessNull, isNull, NullOr, map_eq_ok_iff]

section Fields

variable {fields : List (String × Json)} {name : String}

theorem required_text_iff : Required fields name (Accepts text) ↔ Required fields name IsText :=
  required_congr fun _ _ => accepts_text

theorem optional_text_iff :
    Optional fields name (Accepts optionalText) ↔ Optional fields name (NullOr IsText) :=
  optional_congr fun _ _ => accepts_optionalText

theorem exists_taken_unlessNull_iff {α : Type} {decode : Json -> Except DecodeError α}
    {default : Option α} :
    (exists value, Taken fields name (unlessNull decode) default value) ↔
      Optional fields name (NullOr (Accepts decode)) :=
  exists_taken_iff.trans (optional_congr fun _ _ => accepts_unlessNull)

end Fields

/-! ## Conditions and content -/

theorem accepts_value (json : Json) : Accepts value json :=
  ⟨Value.ofJson json, rfl⟩

theorem exists_operand (fields : List (String × Json)) (name : String) :
    exists operand, field fields name value = .ok operand :=
  exists_field_iff.2 fun json _ => accepts_value json

theorem reference_iff {fields : List (String × Json)} :
    Reference fields ↔
      Required fields "path" (Accepts text) ∧ Optional fields "expr" (Accepts optionalText) := by
  rw [required_text_iff, optional_text_iff]
  exact ⟨fun h => ⟨h.path, h.expr⟩, fun h => ⟨h.1, h.2⟩⟩

theorem exists_condition_iff {fields : List (String × Json)} :
    (exists c, conditionOfFields fields = .ok c) ↔ Reference fields := by
  rw [reference_iff, ← exists_required_iff, ← exists_field_iff]
  constructor
  · intro h
    rcases h with ⟨c, h⟩
    unfold conditionOfFields at h
    rcases bind_eq_ok_iff.1 h with ⟨path?, hpath?, h⟩
    rcases bind_eq_ok_iff.1 h with ⟨expr, hexpr, h⟩
    rcases bind_eq_ok_iff.1 h with ⟨eq, _, h⟩
    rcases bind_eq_ok_iff.1 h with ⟨neq, _, h⟩
    rcases bind_eq_ok_iff.1 h with ⟨gt, _, h⟩
    rcases bind_eq_ok_iff.1 h with ⟨gte, _, h⟩
    rcases bind_eq_ok_iff.1 h with ⟨lt, _, h⟩
    rcases bind_eq_ok_iff.1 h with ⟨lte, _, h⟩
    rcases bind_eq_ok_iff.1 h with ⟨path, hpath, _⟩
    exact ⟨⟨path?, hpath?, path, hpath⟩, expr, hexpr⟩
  · intro h
    rcases h with ⟨⟨path?, hpath?, path, hpath⟩, expr, hexpr⟩
    rcases exists_operand fields "eq" with ⟨eq, heq⟩
    rcases exists_operand fields "neq" with ⟨neq, hneq⟩
    rcases exists_operand fields "gt" with ⟨gt, hgt⟩
    rcases exists_operand fields "gte" with ⟨gte, hgte⟩
    rcases exists_operand fields "lt" with ⟨lt, hlt⟩
    rcases exists_operand fields "lte" with ⟨lte, hlte⟩
    refine ⟨⟨path, expr.join, eq, neq, gt, gte, lt, lte⟩, ?_⟩
    rw [conditionOfFields, hpath?, hexpr, heq, hneq, hgt, hgte, hlt, hlte]
    show required "path" path? >>= _ = _
    rw [hpath]
    rfl

theorem accepts_visibleIf {json : Json} (h : forall items, json ≠ .array items) :
    Accepts visibleIf json ↔ IsVisibleIf json := by
  cases json with
  | object fields =>
      have hcondition : Accepts visibleIf (.object fields) ↔
          exists c, conditionOfFields fields = .ok c := by
        rw [Accepts, visibleIf]
        cases conditionOfFields fields with
        | ok c => simp
        | error e => simp
      rw [hcondition, exists_condition_iff]
      simp [IsVisibleIf, IsText, IsObject]
  | array items => exact absurd rfl (h items)
  | _ => simp [Accepts, visibleIf, IsVisibleIf, IsText, IsObject]

theorem accepts_content {setting : Setting} {json : Json} (h : forall items, json ≠ .array items) :
    Accepts (content setting) json ↔ IsObject Reference json := by
  cases json with
  | object fields =>
      rw [IsObject, reference_iff, ← exists_required_iff, ← exists_field_iff]
      constructor
      · intro haccepts
        rcases haccepts with ⟨c, hc⟩
        rcases bind_eq_ok_iff.1 hc with ⟨expr, hexpr, hc⟩
        rcases bind_eq_ok_iff.1 hc with ⟨path?, hpath?, hc⟩
        rcases bind_eq_ok_iff.1 hc with ⟨path, hpath, _⟩
        exact ⟨⟨path?, hpath?, path, hpath⟩, expr, hexpr⟩
      · intro hfields
        rcases hfields with ⟨⟨path?, hpath?, path, hpath⟩, expr, hexpr⟩
        refine ⟨⟨path, expr.join⟩, ?_⟩
        rw [content, hexpr, hpath?]
        show required "path" path? >>= _ = _
        rw [hpath]
        rfl
  | array items => exact absurd rfl (h items)
  | _ => simp [Accepts, content, IsObject]

/-! ## Components -/

theorem nullOr_congr {P Q : Json -> Prop} {json : Json} (h : P json ↔ Q json) :
    NullOr P json ↔ NullOr Q json := by
  rw [NullOr, NullOr, h]

/-- A component is accepted if each of its fields is. -/
theorem accepts_component_iff {setting : Setting} {fields : List (String × Json)}
    (h : Fields.Ascending fields) :
    Accepts (component setting) (.object fields) ↔
      (Required fields "type" (Accepts text) ∧ Optional fields "id" (Accepts optionalText) ∧
        Optional fields "visibleIf" (NullOr (Accepts visibleIf)) ∧
        Optional fields "contentExpr" (NullOr (Accepts (content setting))) ∧
        Optional fields "items" (NullOr (Accepts items))) ∧
      Optional fields "template" (NullOr (Accepts (component setting))) ∧
      Optional fields "children" (Accepts (childrenOf setting)) := by
  have hfilled : Accepts (component setting) (.object fields) ↔
      exists c, Filled setting (Component.blank "") fields c ∧
        (Fields.find? fields "type").isNone = false := by
    unfold Accepts
    simp only [component_eq_ok_iff h]
  rw [hfilled, required_iff]
  constructor
  · intro haccepts
    rcases haccepts with ⟨c, hc, hkind⟩
    refine ⟨⟨⟨hkind, exists_taken_iff.1 ⟨_, hc.kind⟩⟩, exists_taken_iff.1 ⟨_, hc.id⟩, ?_, ?_, ?_⟩,
      ?_, exists_taken_iff.1 ⟨_, hc.children⟩⟩
    · exact exists_taken_unlessNull_iff.1 ⟨_, hc.visibleIf⟩
    · exact exists_taken_unlessNull_iff.1 ⟨_, hc.content⟩
    · exact exists_taken_unlessNull_iff.1 ⟨_, hc.items⟩
    · exact exists_taken_unlessNull_iff.1 ⟨_, hc.template⟩
  · intro hfields
    rcases hfields with ⟨⟨⟨hsome, hkind⟩, hid, hvisible, hcontent, hitems⟩, htemplate, hchildren⟩
    rcases exists_taken_iff.2 hkind with ⟨kind, hkind⟩
    rcases exists_taken_iff.2 hid with ⟨id, hid⟩
    rcases exists_taken_unlessNull_iff.2 hvisible with ⟨visible, hvisible⟩
    rcases exists_taken_unlessNull_iff.2 hcontent with ⟨shown, hcontent⟩
    rcases exists_taken_unlessNull_iff.2 hitems with ⟨source, hitems⟩
    rcases exists_taken_unlessNull_iff.2 htemplate with ⟨template, htemplate⟩
    rcases exists_taken_iff.2 hchildren with ⟨children, hchildren⟩
    exact ⟨⟨id, kind, visible, shown, source, template, children, _⟩,
      ⟨hid, hkind, hvisible, hcontent, hitems, htemplate, hchildren, rfl⟩, hsome⟩

theorem ownParts_iff {setting : Setting} {fields : List (String × Json)}
    (hvisible : forall items, Fields.find? fields "visibleIf" ≠ some (.array items))
    (hcontent : forall items, Fields.find? fields "contentExpr" ≠ some (.array items)) :
    OwnParts fields ↔
      Required fields "type" (Accepts text) ∧ Optional fields "id" (Accepts optionalText) ∧
        Optional fields "visibleIf" (NullOr (Accepts visibleIf)) ∧
        Optional fields "contentExpr" (NullOr (Accepts (content setting))) ∧
        Optional fields "items" (NullOr (Accepts items)) := by
  have hseen : Optional fields "visibleIf" (NullOr (Accepts visibleIf)) ↔
      Optional fields "visibleIf" (NullOr IsVisibleIf) := by
    apply optional_congr
    intro json hfind
    apply nullOr_congr
    apply accepts_visibleIf
    intro items heq
    exact hvisible items (by rw [hfind, heq])
  have hshown : Optional fields "contentExpr" (NullOr (Accepts (content setting))) ↔
      Optional fields "contentExpr" (NullOr (IsObject Reference)) := by
    apply optional_congr
    intro json hfind
    apply nullOr_congr
    apply accepts_content
    intro items heq
    exact hcontent items (by rw [hfind, heq])
  have hitems : Optional fields "items" (NullOr (Accepts items)) ↔
      Optional fields "items" (NullOr IsItems) :=
    optional_congr fun _ _ => nullOr_congr accepts_items
  rw [required_text_iff, optional_text_iff, hseen, hshown, hitems]
  constructor
  · intro h
    exact ⟨h.kind, h.id, h.visibleIf, h.content, h.items⟩
  · intro h
    rcases h with ⟨hkind, hid, hvisible, hcontent, hitems⟩
    exact ⟨hkind, hid, hvisible, hcontent, hitems⟩

section Trees

/-!
Template and children are smaller than the component, but are found in it by
name; so the claim is made for every field first, as a template and as a list of
children.
-/

variable {setting : Setting}

mutual

theorem accepts_component {json : Json} (h : json.WellFormed) (hnamed : ComponentNamed json) :
    Accepts (component setting) json ↔ IsComponent json := by
  cases json with
  | object fields =>
      cases hnamed with
      | scalar hscalar => exact absurd rfl (hscalar fields)
      | object hvisible hcontent htemplate hchildren =>
          have hfields := accepts_fields fields h.2
          have htemplates : Optional fields "template" (NullOr (Accepts (component setting))) ↔
              Optional fields "template" (NullOr IsComponent) := by
            apply optional_congr
            intro json hfind
            apply nullOr_congr
            exact (hfields _ (Fields.mem_of_find? hfind)).1 (htemplate json hfind)
          have hlists : Optional fields "children" (Accepts (childrenOf setting)) ↔
              Optional fields "children" (IsListOf IsComponent) := by
            apply optional_congr
            intro json hfind
            apply (hfields _ (Fields.mem_of_find? hfind)).2
            intro items heq
            exact hchildren items (heq ▸ hfind)
          rw [accepts_component_iff h.1, isComponent_object_iff, ownParts_iff hvisible hcontent,
            htemplates, hlists]
  | _ =>
      constructor
      · intro haccepts
        rcases haccepts with ⟨c, hc⟩
        cases hc
      · intro hfits
        cases hfits

theorem accepts_fields (fields : List (String × Json)) (h : Json.WellFormedFields fields) :
    forall field, field ∈ fields ->
      (ComponentNamed field.2 -> (Accepts (component setting) field.2 ↔ IsComponent field.2)) ∧
        ((forall items, field.2 = .array items -> forall item, item ∈ items ->
            ComponentNamed item) ->
          (Accepts (childrenOf setting) field.2 ↔ IsListOf IsComponent field.2)) := by
  cases fields with
  | nil =>
      intro field hmem
      cases hmem
  | cons first fields =>
      intro field hmem
      rcases List.mem_cons.1 hmem with heq | hmem
      · rw [heq]
        exact ⟨accepts_component h.1, accepts_childrenOf h.1⟩
      · exact accepts_fields fields h.2 field hmem

theorem accepts_childrenOf {json : Json} (h : json.WellFormed)
    (hnamed : forall items, json = .array items -> forall item, item ∈ items ->
      ComponentNamed item) :
    Accepts (childrenOf setting) json ↔ IsListOf IsComponent json := by
  cases json with
  | array items => exact exists_components_iff items h (hnamed items rfl)
  | _ =>
      constructor
      · intro haccepts
        rcases haccepts with ⟨cs, hcs⟩
        cases hcs
      · intro hfits
        exact hfits.elim

theorem exists_components_iff (items : List Json) (h : Json.WellFormedItems items)
    (hnamed : forall item, item ∈ items -> ComponentNamed item) :
    (exists cs, components setting items = .ok cs) ↔
      forall item, item ∈ items -> IsComponent item := by
  cases items with
  | nil =>
      constructor
      · intro _ item hmem
        cases hmem
      · intro _
        exact ⟨[], rfl⟩
  | cons item items =>
      have hitem : Accepts (component setting) item ↔ IsComponent item :=
        accepts_component h.1 (hnamed item List.mem_cons_self)
      have hitems := exists_components_iff items h.2 fun other hother =>
        hnamed other (List.mem_cons_of_mem _ hother)
      rw [List.forall_mem_cons, ← hitem, ← hitems]
      simp only [Accepts, components, bind_eq_ok_iff, Except.ok.injEq]
      constructor
      · intro h
        rcases h with ⟨all, c, hc, cs, hcs, _⟩
        exact ⟨⟨c, hc⟩, cs, hcs⟩
      · intro h
        rcases h with ⟨⟨c, hc⟩, cs, hcs⟩
        exact ⟨c :: cs, c, hc, cs, hcs, rfl⟩

end

end Trees

/-! ## Surfaces and messages -/

theorem wellFormed_of_find? {fields : List (String × Json)} {name : String} {json : Json}
    (h : Json.WellFormedFields fields) (hfind : Fields.find? fields name = some json) :
    json.WellFormed := by
  induction fields with
  | nil => cases hfind
  | cons field fields ih =>
      rw [Fields.find?_cons] at hfind
      split at hfind
      · cases hfind
        exact h.1
      · exact ih h.2 hfind

theorem accepts_surface {json : Json} (h : json.WellFormed) (hnamed : SurfaceNamed json) :
    Accepts surface json ↔ IsObject SurfaceParts json := by
  cases json with
  | object fields =>
      have hcomponents : Optional fields "components" (Accepts (childrenOf .inMessage)) ↔
          Optional fields "components" (IsListOf IsComponent) := by
        apply optional_congr
        intro json hfind
        apply accepts_childrenOf (wellFormed_of_find? h.2 hfind)
        intro items heq
        exact hnamed.components fields items rfl (heq ▸ hfind)
      constructor
      · intro haccepts
        rcases haccepts with ⟨found, hfound⟩
        rcases bind_eq_ok_iff.1 hfound with ⟨components, hok, hfound⟩
        rcases bind_eq_ok_iff.1 hfound with ⟨id?, hid?, hfound⟩
        rcases bind_eq_ok_iff.1 hfound with ⟨title, htitle?, hfound⟩
        rcases bind_eq_ok_iff.1 hfound with ⟨id, hpresent, _⟩
        constructor
        · exact required_text_iff.1 (exists_required_iff.1 ⟨id?, hid?, id, hpresent⟩)
        · exact optional_text_iff.1 (exists_field_iff.1 ⟨title, htitle?⟩)
        · exact hcomponents.1 (exists_field_iff.1 ⟨components, hok⟩)
      · intro hfits
        rcases exists_required_iff.2 (required_text_iff.2 hfits.id) with ⟨id?, hid?, id, hpresent⟩
        rcases exists_field_iff.2 (optional_text_iff.2 hfits.title) with ⟨title, htitle?⟩
        rcases exists_field_iff.2 (hcomponents.2 hfits.components) with ⟨components, hok⟩
        refine ⟨⟨id, title.join, components.getD []⟩, ?_⟩
        rw [surface, hok, hid?, htitle?]
        show required "id" id? >>= _ = _
        rw [hpresent]
        rfl
  | array items => exact absurd rfl (hnamed.surface items)
  | _ => simp [Accepts, surface, IsObject]

theorem ofName?_eq_some_iff {name : String} {found : Message.Kind} :
    Message.Kind.ofName? name = some found ↔ name = found.name := by
  constructor
  · intro h
    unfold Message.Kind.ofName? at h
    split at h <;> cases h <;> rfl
  · intro h
    rw [h, Message.Kind.ofName?_name]

theorem kind_eq_ok_iff {json : Json} {found : Message.Kind} :
    kind json = .ok found ↔ json = .text found.name := by
  cases json with
  | text name =>
      rw [kind, Json.text.injEq, ← ofName?_eq_some_iff]
      cases Message.Kind.ofName? name with
      | none => simp
      | some other => simp
  | _ => simp [kind]

theorem exists_messageOfFields_iff {fields : List (String × Json)} {kind : Message.Kind}
    (h : Json.WellFormedFields fields)
    (hnamed : kind = .surfaceUpdate -> forall surface,
      Fields.find? fields "surface" = some surface -> SurfaceNamed surface) :
    (exists m, messageOfFields kind fields = .ok m) ↔ MessageParts fields kind := by
  cases kind with
  | surfaceUpdate =>
      have hsurface : Required fields "surface" (Accepts surface) ↔
          Required fields "surface" (IsObject SurfaceParts) := by
        apply required_congr
        intro json hfind
        exact accepts_surface (wellFormed_of_find? h hfind) (hnamed rfl json hfind)
      rw [MessageParts, ← hsurface, ← exists_required_iff]
      simp [messageOfFields, bind_eq_ok_iff]
  | dataModelUpdate =>
      have hpath : Optional fields "path" (Accepts text) ↔ Optional fields "path" IsText :=
        optional_congr fun _ _ => accepts_text
      rcases exists_operand fields "data" with ⟨data, hdata⟩
      rw [MessageParts, ← hpath, ← exists_field_iff]
      simp [messageOfFields, bind_eq_ok_iff, hdata]
  | deleteSurface =>
      rw [MessageParts, ← required_text_iff, ← exists_required_iff]
      simp [messageOfFields, bind_eq_ok_iff]
  | beginRendering =>
      rw [MessageParts, ← optional_text_iff, ← exists_field_iff]
      simp [messageOfFields, bind_eq_ok_iff]

theorem exists_tag_iff {fields : List (String × Json)} {found : Message.Kind} :
    (exists tag, field fields "type" kind = .ok tag ∧ required "type" tag = .ok found) ↔
      Fields.find? fields "type" = some (.text found.name) := by
  unfold field
  cases Fields.find? fields "type" with
  | none => simp [required]
  | some json =>
      rw [Option.some.injEq, ← kind_eq_ok_iff]
      simp [map_eq_ok_iff, required]

/-- A message is decoded just if it keeps to the schema. -/
theorem message_accepted_iff {json : Json} (h : json.WellFormed) (hnamed : MessageNamed json) :
    Accepts message json ↔ IsMessage json := by
  cases json with
  | object fields =>
      have hparts : forall kind : Message.Kind,
          Fields.find? fields "type" = some (.text kind.name) ->
            ((exists m, messageOfFields kind fields = .ok m) ↔ MessageParts fields kind) := by
        intro kind htag
        apply exists_messageOfFields_iff h.2
        intro hkind surface hfind
        cases hkind
        exact hnamed.surface fields surface rfl htag hfind
      constructor
      · intro haccepts
        rcases haccepts with ⟨m, hm⟩
        rcases bind_eq_ok_iff.1 hm with ⟨tag, hfield, hm⟩
        rcases bind_eq_ok_iff.1 hm with ⟨kind, hpresent, hm⟩
        have htag := exists_tag_iff.1 ⟨tag, hfield, hpresent⟩
        exact ⟨kind, htag, (hparts kind htag).1 ⟨m, hm⟩⟩
      · intro hfits
        rcases hfits with ⟨kind, htag, hfits⟩
        rcases exists_tag_iff.2 htag with ⟨tag, hfield, hpresent⟩
        rcases (hparts kind htag).2 hfits with ⟨m, hm⟩
        exact ⟨m, bind_eq_ok_iff.2 ⟨tag, hfield, bind_eq_ok_iff.2 ⟨kind, hpresent, hm⟩⟩⟩
  | array items => exact absurd rfl (hnamed.message items)
  | _ => simp [Accepts, message, IsMessage, IsObject]

/-- An update with a condition, a component in a component, and these children of a template. -/
def nestedUpdate (children : Json) : Json :=
  .object [
    ("surface", .object [
      ("components", .array [.object [
        ("children", .array [.object [("items", .null), ("type", .text "List")]]),
        ("template", .object [("children", children), ("type", .text "Row")]),
        ("type", .text "List"),
        ("visibleIf", .object [("eq", .null), ("path", .text "/open")])]]),
      ("id", .text "main")]),
    ("type", .text "surfaceUpdate")]

theorem componentNamed_of_bare {fields : List (String × Json)}
    (hvisible : Fields.find? fields "visibleIf" = none)
    (hcontent : Fields.find? fields "contentExpr" = none)
    (htemplate : Fields.find? fields "template" = none)
    (hchildren : forall items, Fields.find? fields "children" = some (.array items) ->
      items = []) :
    ComponentNamed (.object fields) := by
  apply ComponentNamed.object
  · intro items hfind
    rw [hvisible] at hfind
    cases hfind
  · intro items hfind
    rw [hcontent] at hfind
    cases hfind
  · intro json hfind
    rw [htemplate] at hfind
    cases hfind
  · intro items hfind item hmem
    rw [hchildren items hfind] at hmem
    cases hmem

theorem messageNamed_nestedUpdate {children : Json}
    (h : forall items, children = .array items -> items = []) :
    MessageNamed (nestedUpdate children) := by
  constructor
  · intro items heq
    cases heq
  · intro fields surface heq _ hfind
    cases heq
    cases hfind
    constructor
    · intro items heq
      cases heq
    · intro fields items heq hfind item hmem
      cases heq
      cases hfind
      rcases List.mem_singleton.1 hmem with rfl
      apply ComponentNamed.object
      · intro items hfind
        cases hfind
      · intro items hfind
        cases hfind
      · intro json hfind
        cases hfind
        apply componentNamed_of_bare rfl rfl rfl
        intro items hfind
        exact h items (Option.some.inj hfind)
      · intro items hfind item hmem
        cases hfind
        rcases List.mem_singleton.1 hmem with rfl
        apply componentNamed_of_bare rfl rfl rfl
        intro items hfind
        cases hfind

theorem message_accepted_iff_of_nestedUpdate :
    (nestedUpdate (.array [])).WellFormed ∧ MessageNamed (nestedUpdate (.array [])) ∧
      IsMessage (nestedUpdate (.array [])) ∧
    (nestedUpdate .null).WellFormed ∧ MessageNamed (nestedUpdate .null) ∧
      ¬ IsMessage (nestedUpdate .null) := by
  have hempty : (nestedUpdate (.array [])).WellFormed := by
    simp only [nestedUpdate, Json.WellFormed, Json.WellFormedFields, Json.WellFormedItems,
      Fields.Ascending]
    decide
  have hnull : (nestedUpdate .null).WellFormed := by
    simp only [nestedUpdate, Json.WellFormed, Json.WellFormedFields, Json.WellFormedItems,
      Fields.Ascending]
    decide
  have hemptyNamed : MessageNamed (nestedUpdate (.array [])) :=
    messageNamed_nestedUpdate fun items heq => (Json.array.inj heq).symm
  have hnullNamed : MessageNamed (nestedUpdate .null) := by
    apply messageNamed_nestedUpdate
    intro items heq
    cases heq
  have haccepted : Accepts message (nestedUpdate (.array [])) := ⟨_, rfl⟩
  have hrefused : ¬ Accepts message (nestedUpdate .null) := by
    intro haccepts
    rcases haccepts with ⟨m, hm⟩
    cases hm
  exact ⟨hempty, hemptyNamed, (message_accepted_iff hempty hemptyNamed).1 haccepted,
    hnull, hnullNamed, fun hfits => hrefused ((message_accepted_iff hnull hnullNamed).2 hfits)⟩

end Decode
end SurfaceFeed
