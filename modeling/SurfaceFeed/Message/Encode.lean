import SurfaceFeed.Message.Basic

/-!
# Documents from messages

Fields are written in a fixed order: the type of a message first, and the
properties of a component last, in ascending order.  Parts that are missing are
not written, and neither are empty lists of children.
-/

namespace SurfaceFeed
namespace Encode

abbrev FieldList := List (String × Json)

def optional {α : Type} (name : String) (encode : α -> Json) : Option α -> FieldList
  | none => []
  | some value => [(name, encode value)]

/-! ## Conditions, content and items -/

def condition (c : Condition) : Json :=
  .object <|
    [("path", .text c.path)] ++ optional "expr" .text c.expr ++
      optional "eq" Value.toJson c.eq ++ optional "neq" Value.toJson c.neq ++
      optional "gt" Value.toJson c.gt ++ optional "gte" Value.toJson c.gte ++
      optional "lt" Value.toJson c.lt ++ optional "lte" Value.toJson c.lte

def visibleIf : VisibleIf -> Json
  | .path path => .text path
  | .condition c => condition c

def content (c : Content) : Json :=
  .object <| [("path", .text c.path)] ++ optional "expr" .text c.expr

def items : Items -> Json
  | .path path => .text path
  | .inline values => .array (Value.toJsonItems values)

/-! ## Components -/

def childrenField : List Json -> FieldList
  | [] => []
  | child :: children => [("children", .array (child :: children))]

mutual

def component : Component -> Json
  | ⟨id, kind, visible, shown, source, template, children, props⟩ =>
      .object <|
        optional "id" .text id ++ [("type", .text kind)] ++
          optional "visibleIf" visibleIf visible ++ optional "contentExpr" content shown ++
          optional "items" items source ++ templateField template ++
          childrenField (components children) ++ props

def templateField : Option Component -> FieldList
  | none => []
  | some template => [("template", component template)]

def components : List Component -> List Json
  | [] => []
  | c :: cs => component c :: components cs

end

/-! ## Surfaces and messages -/

def surface (s : Surface) : Json :=
  .object <|
    [("id", .text s.id)] ++ optional "title" .text s.title ++
      [("components", .array (components s.components))]

/-- The fields of a message beside its type. -/
def messageFields : Message -> FieldList
  | .surfaceUpdate s => [("surface", surface s)]
  | .dataModelUpdate path data => [("path", .text path), ("data", data.toJson)]
  | .deleteSurface id => [("surfaceId", .text id)]
  | .beginRendering id => optional "surfaceId" .text id

def message (m : Message) : Json :=
  .object <| ("type", .text m.kind.name) :: messageFields m

end Encode
end SurfaceFeed
