import SurfaceFeed.Component

/-!
# Messages

A feed describes a user interface by messages of four kinds, which take effect
in the order in which they arrive.
-/

namespace SurfaceFeed

inductive Message where
  | surfaceUpdate (surface : Surface)
  | dataModelUpdate (path : String) (data : Value)
  | deleteSurface (surfaceId : String)
  | beginRendering (surfaceId : Option String)
  deriving Inhabited

namespace Message

inductive Kind where
  | surfaceUpdate
  | dataModelUpdate
  | deleteSurface
  | beginRendering
  deriving DecidableEq, Repr

namespace Kind

def name : Kind -> String
  | surfaceUpdate => "surfaceUpdate"
  | dataModelUpdate => "dataModelUpdate"
  | deleteSurface => "deleteSurface"
  | beginRendering => "beginRendering"

def ofName? (name : String) : Option Kind :=
  match name with
  | "surfaceUpdate" => some surfaceUpdate
  | "dataModelUpdate" => some dataModelUpdate
  | "deleteSurface" => some deleteSurface
  | "beginRendering" => some beginRendering
  | _ => none

theorem ofName?_name (kind : Kind) : ofName? kind.name = some kind := by
  cases kind <;> rfl

end Kind

def kind : Message -> Kind
  | surfaceUpdate _ => .surfaceUpdate
  | dataModelUpdate _ _ => .dataModelUpdate
  | deleteSurface _ => .deleteSurface
  | beginRendering _ => .beginRendering

def same : Message -> Message -> Bool
  | surfaceUpdate a, surfaceUpdate b => a.same b
  | dataModelUpdate pa a, dataModelUpdate pb b => pa == pb && a == b
  | deleteSurface a, deleteSurface b => a == b
  | beginRendering a, beginRendering b => a == b
  | _, _ => false

instance : BEq Message := ⟨same⟩

end Message
end SurfaceFeed
