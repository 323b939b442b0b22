import SurfaceFeed.Message.Basic
import SurfaceFeed.Model

/-!
# Sessions

## The state that messages build up

A session holds the active surface and its data model.  A message replaces the
surface, writes to the model, deletes the surface or starts the rendering; a
message for a surface that is not active is ignored, and a write that fails
leaves everything as it was.
-/

namespace SurfaceFeed

/-- What a message did to a session. -/
inductive Outcome where
  | surfaceReplaced
  | dataUpdated
  | surfaceDeleted
  | renderingStarted
  | ignored
  deriving DecidableEq, Repr

namespace Outcome

def name : Outcome -> String
  | surfaceReplaced => "surfaceReplaced"
  | dataUpdated => "dataUpdated"
  | surfaceDeleted => "surfaceDeleted"
  | renderingStarted => "renderingStarted"
  | ignored => "ignored"

def changesState : Outcome -> Bool
  | ignored => false
  | _ => true

end Outcome

/-- A write to the data model that failed. -/
structure WriteError where
  path : String
  cause : PointerError
  deriving DecidableEq, Repr

namespace WriteError

def code (e : WriteError) : String :=
  e.cause.code

def message (e : WriteError) : String :=
  "data model write at '" ++ e.path ++ "' failed: " ++ e.cause.message

end WriteError

structure Session where
  surface : Option Surface
  model : Model
  isRendering : Bool
  appliedCount : Nat

namespace Session

def ofModel (model : Model) : Session :=
  ⟨none, model, false, 0⟩

def start : Session :=
  ofModel .empty

instance : Inhabited Session := ⟨start⟩

def isActive (s : Session) (surfaceId : String) : Bool :=
  match s.surface with
  | some surface => surface.id == surfaceId
  | none => false

def write (s : Session) (path : String) (value : Value) : Except WriteError Model :=
  match s.model.set path value with
  | .ok model => .ok model
  | .error cause => .error ⟨path, cause⟩

/-- Counts a message that changed the session. -/
def counted (s : Session) : Session :=
  { s with appliedCount := s.appliedCount + 1 }

/-- The session after a message, and what the message did. -/
def apply (s : Session) : Message -> Session × Except WriteError Outcome
  | .surfaceUpdate surface =>
      ({ s with surface := some surface }.counted, .ok .surfaceReplaced)
  | .dataModelUpdate path data =>
      match s.write path data with
      | .ok model => ({ s with model := model }.counted, .ok .dataUpdated)
      | .error e => (s, .error e)
  | .deleteSurface surfaceId =>
      if s.isActive surfaceId then
        ({ s with surface := none, isRendering := false }.counted, .ok .surfaceDeleted)
      else (s, .ok .ignored)
  | .beginRendering none =>
      ({ s with isRendering := true }.counted, .ok .renderingStarted)
  | .beginRendering (some surfaceId) =>
      if s.isActive surfaceId then
        ({ s with isRendering := true }.counted, .ok .renderingStarted)
      else (s, .ok .ignored)

def changed : Except WriteError Outcome -> Bool
  | .ok outcome => outcome.changesState
  | .error _ => false

/-- Applies messages in order, and counts those that changed the session. -/
def applyAll (s : Session) : List Message -> Session × Nat
  | [] => (s, 0)
  | m :: ms =>
      let (s, result) := s.apply m
      let (s, count) := s.applyAll ms
      (s, (if changed result then 1 else 0) + count)

/-- A value that the user entered; it is not counted as a message. -/
def setValue (s : Session) (pointer : String) (value : Value) :
    Session × Except WriteError Unit :=
  match s.write pointer value with
  | .ok model => ({ s with model := model }, .ok ())
  | .error e => (s, .error e)

end Session
end SurfaceFeed
