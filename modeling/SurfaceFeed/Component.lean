import SurfaceFeed.Condition
import SurfaceFeed.Json.Basic

/-!
# Components and surfaces

## What a user interface is described by

A component has a type, children, and properties that this library passes on as
they are.  It may be visible only under a condition, show a value of the data
model, and repeat a template for each item of a list.  A surface is a named
tree of components.
-/

namespace SurfaceFeed

/-- The items of a list: those that stand at a path of the model, or the ones given here. -/
inductive Items where
  | path (pointer : String)
  | inline (values : List Value)
  deriving Inhabited

structure Component where
  id : Option String
  kind : String
  visibleIf : Option VisibleIf
  content : Option Content
  items : Option Items
  template : Option Component
  children : List Component
  props : List (String × Json)
  deriving Inhabited

structure Surface where
  id : String
  title : Option String
  components : List Component
  deriving Inhabited

/-! ## Equality -/

namespace Items

def same : Items -> Items -> Bool
  | path a, path b => a == b
  | inline a, inline b => Value.sameItems a b
  | _, _ => false

end Items

namespace Component

def blank (kind : String) : Component :=
  ⟨none, kind, none, none, none, none, [], []⟩

/-- Equality of two components apart from their templates and children. -/
def sameOwn (a b : Component) : Bool :=
  a.id == b.id && a.kind == b.kind && sameOption VisibleIf.same a.visibleIf b.visibleIf &&
    a.content == b.content && sameOption Items.same a.items b.items &&
    Json.sameFields a.props b.props

mutual

def same : Component -> Component -> Bool
  | ⟨aId, aKind, aVisible, aContent, aItems, aTemplate, aChildren, aProps⟩, b =>
      sameOwn ⟨aId, aKind, aVisible, aContent, aItems, none, [], aProps⟩ b &&
        sameTemplate aTemplate b.template && sameChildren aChildren b.children

def sameTemplate : Option Component -> Option Component -> Bool
  | none, none => true
  | some a, some b => same a b
  | _, _ => false

def sameChildren : List Component -> List Component -> Bool
  | [], [] => true
  | a :: as, b :: bs => same a b && sameChildren as bs
  | _, _ => false

end

instance : BEq Component := ⟨same⟩

end Component

namespace Surface

def same (a b : Surface) : Bool :=
  a.id == b.id && a.title == b.title && Component.sameChildren a.components b.components

end Surface
end SurfaceFeed
