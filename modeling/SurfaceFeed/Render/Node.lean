import SurfaceFeed.Json.Printer
import SurfaceFeed.Value.Basic

/-!
# Rendered trees

A rendered node is a component with every decision made: it is visible, its
content is a value, and its lists are written out.  The outline of a tree shows
one node on each line, two spaces deeper than its parent.
-/

namespace SurfaceFeed

structure Node where
  id : Option String
  kind : String
  props : List (String × Json)
  content : Option Value
  children : List Node
  deriving Inhabited

namespace Node

/-! ## The document of a tree -/

def idField : Option String -> List (String × Json)
  | none => []
  | some id => [("id", .text id)]

def propsField : List (String × Json) -> List (String × Json)
  | [] => []
  | props => [("props", .object props)]

def contentField : Option Value -> List (String × Json)
  | none => []
  | some value => [("content", value.toJson)]

def childrenField : List Json -> List (String × Json)
  | [] => []
  | children => [("children", .array children)]

mutual

def toJson : Node -> Json
  | ⟨id, kind, props, content, children⟩ =>
      .object <|
        idField id ++ [("type", .text kind)] ++ propsField props ++ contentField content ++
          childrenField (toJsonList children)

def toJsonList : List Node -> List Json
  | [] => []
  | node :: nodes => toJson node :: toJsonList nodes

end

/-! ## The outline of a tree -/

def idText : Option String -> String
  | none => ""
  | some id => "#" ++ id

/-- Lists and objects among the properties are not shown. -/
def propText (prop : String × Json) : String :=
  if prop.2.isScalar then " " ++ prop.1 ++ "=" ++ prop.2.compact else ""

def contentText : Option Value -> String
  | none => ""
  | some value => " = " ++ value.display

/-- The line of a node, without the end of the line. -/
def line (depth : Nat) (id : Option String) (kind : String)
    (props : List (String × Json)) (content : Option Value) : String :=
  String.ofList (List.replicate (2 * depth) ' ') ++ kind ++ idText id ++
    String.join (props.map propText) ++ contentText content

mutual

/-- The lines of a tree whose root stands at `depth`. -/
def lines (depth : Nat) : Node -> List String
  | ⟨id, kind, props, content, children⟩ =>
      line depth id kind props content :: linesOfAll (depth + 1) children

def linesOfAll (depth : Nat) : List Node -> List String
  | [] => []
  | node :: nodes => lines depth node ++ linesOfAll depth nodes

end

def outline (node : Node) : String :=
  String.join ((lines 0 node).map (· ++ "\n"))

end Node
end SurfaceFeed
