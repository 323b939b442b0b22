import SurfaceFeed.Message.Basic
import SurfaceFeed.Message.DecodeError

/-!
# Messages from documents

## What a document means

The fields of an object are looked at in the order in which they stand, and the
first one that does not fit is the error; fields that are missing are noticed
afterwards.  Fields that nothing asks for are passed over, and kept as
properties on a component.

A surface, a condition, a content expression and a message may also be written
as the list of their parts; missing parts at the end take their defaults.
-/

namespace SurfaceFeed
namespace Decode

def text : Json -> Except DecodeError String
  | .text s => .ok s
  | found => .error (.wrongType found .text)

/-- Null stands for a text that is missing. -/
def optionalText : Json -> Except DecodeError (Option String)
  | .null => .ok none
  | .text s => .ok (some s)
  | found => .error (.wrongType found .text)

/-! ## Named parts -/

section Parts

variable {α : Type}

/-- The field of this name if it is there. -/
def field (fields : List (String × Json)) (name : String)
    (decode : Json -> Except DecodeError α) : Except DecodeError (Option α) :=
  match Fields.find? fields name with
  | some value => (decode value).map some
  | none => .ok none

def required (name : String) (value : Option α) : Except DecodeError α :=
  match value with
  | some value => .ok value
  | none => .error (.missingField name)

/-- The next part of a list, or its default at the end, and the parts after it. -/
def part (decode : Json -> Except DecodeError α) (default : α) (items : List Json) :
    Except DecodeError (α × List Json) :=
  match items with
  | [] => .ok (default, [])
  | item :: items => (decode item).map fun value => (value, items)

/-- The first part of a list, which must not be missing. -/
def firstPart (sequence : Sequence) (decode : Json -> Except DecodeError α)
    (items : List Json) : Except DecodeError (α × List Json) :=
  match items with
  | [] => .error (.tooFew 0 sequence)
  | item :: items => (decode item).map fun value => (value, items)

/-- All parts of a list have been taken. -/
def noMore (setting : Setting) (all left : List Json) : Except DecodeError Unit :=
  if left.isEmpty then .ok ()
  else .error (.tooMany all.length (all.length - left.length) setting)

end Parts

/-! ## Conditions, content and items -/

def value (json : Json) : Except DecodeError Value :=
  .ok (Value.ofJson json)

def operand (json : Json) : Except DecodeError (Option Value) :=
  .ok (some (Value.ofJson json))

/-- An operator that is written counts as present, even with the operand null. -/
def conditionOfFields (fields : List (String × Json)) : Except DecodeError Condition := do
  let path ← field fields "path" text
  let expr ← field fields "expr" optionalText
  let eq ← field fields "eq" value
  let neq ← field fields "neq" value
  let gt ← field fields "gt" value
  let gte ← field fields "gte" value
  let lt ← field fields "lt" value
  let lte ← field fields "lte" value
  let path ← required "path" path
  .ok ⟨path, expr.join, eq, neq, gt, gte, lt, lte⟩

def conditionOfItems (items : List Json) : Except DecodeError Condition := do
  let (path, left) ← firstPart .condition text items
  let (expr, left) ← part optionalText none left
  let (eq, left) ← part operand none left
  let (neq, left) ← part operand none left
  let (gt, left) ← part operand none left
  let (gte, left) ← part operand none left
  let (lt, left) ← part operand none left
  let (lte, left) ← part operand none left
  noMore .inMessage items left
  .ok ⟨path, expr, eq, neq, gt, gte, lt, lte⟩

/-- Whatever is wrong with a condition, the error is that it is none. -/
def visibleIf : Json -> Except DecodeError VisibleIf
  | .text path => .ok (.path path)
  | .object fields =>
      match conditionOfFields fields with
      | .ok c => .ok (.condition c)
      | .error _ => .error .noVisibleIf
  | .array items =>
      match conditionOfItems items with
      | .ok c => .ok (.condition c)
      | .error _ => .error .noVisibleIf
  | _ => .error .noVisibleIf

def content (setting : Setting) : Json -> Except DecodeError Content
  | .object fields => do
      let expr ← field fields "expr" optionalText
      let path ← field fields "path" text
      let path ← required "path" path
      .ok ⟨path, expr.join⟩
  | .array items => do
      let (path, left) ← firstPart .content text items
      let (expr, left) ← part optionalText none left
      noMore setting items left
      .ok ⟨path, expr⟩
  | found => .error (.wrongType found .content)

def items : Json -> Except DecodeError Items
  | .text path => .ok (.path path)
  | .array values => .ok (.inline (Value.ofJsonItems values))
  | _ => .error .noItems

def isNull : Json -> Bool
  | .null => true
  | _ => false

/-- Null stands for a part that is missing. -/
def unlessNull {α : Type} (decode : Json -> Except DecodeError α) (json : Json) :
    Except DecodeError (Option α) :=
  if isNull json then .ok none else (decode json).map some

/-! ## Components -/

mutual

def component (setting : Setting) : Json -> Except DecodeError Component
  | .object fields => do
      let c ← fillComponent setting (Component.blank "") fields
      if (Fields.find? fields "type").isNone then .error (.missingField "type")
      else .ok c
  | found => .error (.wrongType found .component)

/-- Adds fields to a component, in the order in which they stand. -/
def fillComponent (setting : Setting) (c : Component) :
    List (String × Json) -> Except DecodeError Component
  | [] => .ok c
  | (name, json) :: fields => do
      if name = "id" then
        let id ← optionalText json
        fillComponent setting { c with id := id } fields
      else if name = "type" then
        let kind ← text json
        fillComponent setting { c with kind := kind } fields
      else if name = "visibleIf" then
        let condition ← unlessNull visibleIf json
        fillComponent setting { c with visibleIf := condition } fields
      else if name = "contentExpr" then
        let content ← unlessNull (content setting) json
        fillComponent setting { c with content := content } fields
      else if name = "items" then
        let items ← unlessNull items json
        fillComponent setting { c with items := items } fields
      else if name = "template" then
        let template ←
          if isNull json then .ok none else (component setting json).map some
        fillComponent setting { c with template := template } fields
      else if name = "children" then
        let children ← childrenOf setting json
        fillComponent setting { c with children := children } fields
      else
        fillComponent setting { c with props := c.props ++ [(name, json)] } fields

def childrenOf (setting : Setting) : Json -> Except DecodeError (List Component)
  | .array items => components setting items
  | found => .error (.wrongType found .list)

def components (setting : Setting) : List Json -> Except DecodeError (List Component)
  | [] => .ok []
  | item :: items => do
      let c ← component setting item
      let cs ← components setting items
      .ok (c :: cs)

end

/-! ## Surfaces and messages -/

def surface : Json -> Except DecodeError Surface
  | .object fields => do
      let components ← field fields "components" (childrenOf .inMessage)
      let id ← field fields "id" text
      let title ← field fields "title" optionalText
      let id ← required "id" id
      .ok ⟨id, title.join, components.getD []⟩
  | .array items => do
      let (id, left) ← firstPart .surface text items
      let (title, left) ← part optionalText none left
      let (components, left) ← part (childrenOf .inMessage) [] left
      noMore .inMessage items left
      .ok ⟨id, title, components⟩
  | found => .error (.wrongType found .surface)

/-- The path that an update writes to when it names none. -/
def defaultPath : String := "/"

def messageOfFields (kind : Message.Kind) (fields : List (String × Json)) :
    Except DecodeError Message :=
  match kind with
  | .surfaceUpdate => do
      let surface ← field fields "surface" surface
      let surface ← required "surface" surface
      .ok (.surfaceUpdate surface)
  | .dataModelUpdate => do
      let data ← field fields "data" value
      let path ← field fields "path" text
      .ok (.dataModelUpdate (path.getD defaultPath) (data.getD .null))
  | .deleteSurface => do
      let id ← field fields "surfaceId" text
      let id ← required "surfaceId" id
      .ok (.deleteSurface id)
  | .beginRendering => do
      let id ← field fields "surfaceId" optionalText
      .ok (.beginRendering id.join)

def messageOfItems (kind : Message.Kind) (items : List Json) :
    Except DecodeError Message :=
  match kind with
  | .surfaceUpdate => do
      let (surface, left) ← firstPart .surfaceUpdate surface items
      noMore .inMessage items left
      .ok (.surfaceUpdate surface)
  | .dataModelUpdate => do
      let (path, left) ← part text defaultPath items
      let (data, left) ← part value .null left
      noMore .inMessage items left
      .ok (.dataModelUpdate path data)
  | .deleteSurface => do
      let (id, left) ← firstPart .deleteSurface text items
      noMore .inMessage items left
      .ok (.deleteSurface id)
  | .beginRendering => do
      let (id, left) ← part optionalText none items
      noMore .inMessage items left
      .ok (.beginRendering id)

def kind : Json -> Except DecodeError Message.Kind
  | .text name =>
      match Message.Kind.ofName? name with
      | some kind => .ok kind
      | none => .error (.unknownKind name)
  | found => .error (.wrongType found .kind)

/-- The kind of a message decides what its other parts are. -/
def message : Json -> Except DecodeError Message
  | .object fields => do
      let tag ← field fields "type" kind
      let tag ← required "type" tag
      messageOfFields tag fields
  | .array [] => .error (.missingField "type")
  | .array (tag :: items) => do
      let tag ← kind tag
      messageOfItems tag items
  | found => .error (.wrongType found .message)

/-- A data model from a document, which must be an object. -/
def model (json : Json) : Except DecodeError Model :=
  match Model.ofValue (Value.ofJson json) with
  | .ok model => .ok model
  | .error _ => .error .rootNotObject

end Decode
end SurfaceFeed
