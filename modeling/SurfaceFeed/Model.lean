import SurfaceFeed.Value.Path

/-!
# Data models

A data model is a value whose root is an object.  Its writes keep the root an
object, whatever they write.
-/

namespace SurfaceFeed

structure Model where
  root : Value
  root_isObject : root.isObject = true

namespace Model

def empty : Model := ⟨.emptyObject, rfl⟩

instance : Inhabited Model := ⟨empty⟩

def ofValue (value : Value) : Except PointerError Model :=
  if h : value.isObject = true then .ok ⟨value, h⟩ else .error .rootNotObject

def get (model : Model) (pointer : String) : Option Value :=
  model.root.get pointer

/-! ## The root stays an object -/

theorem isObject_put {root : Value} (h : root.isObject = true) (segment : String)
    (rest : List String) (value : Value) :
    (Value.put (some root) (segment :: rest) value).isObject = true := by
  cases root <;> simp [Value.isObject] at h
  simp [Value.put, Value.listTarget?, Value.isObject]

theorem isObject_setAt {root value updated : Value} (h : root.isObject = true)
    {path : List String} (hset : root.setAt path value = .ok updated) :
    updated.isObject = true := by
  cases path with
  | nil =>
      rw [Value.setAt] at hset
      split at hset
      · next hvalue => cases hset; exact hvalue
      · cases hset
  | cons segment rest =>
      rw [Value.setAt] at hset
      cases hset
      exact isObject_put h segment rest value

theorem isObject_drop? {root updated : Value} (h : root.isObject = true)
    {path : List String} (hdrop : root.drop? path = some updated) :
    updated.isObject = true := by
  cases root <;> simp [Value.isObject] at h
  match path with
  | [] => simp [Value.drop?] at hdrop
  | [segment] =>
      simp only [Value.drop?] at hdrop
      split at hdrop
      · cases hdrop; rfl
      · cases hdrop
  | segment :: next :: rest =>
      simp only [Value.drop?] at hdrop
      split at hdrop
      · rcases Option.map_eq_some_iff.1 hdrop with ⟨child, _, rfl⟩
        rfl
      · cases hdrop

theorem isObject_removeAt {root : Value} (h : root.isObject = true)
    (path : List String) : (root.removeAt path).isObject = true := by
  rw [Value.removeAt]
  split
  · rfl
  · cases hdrop : root.drop? path with
    | none => exact h
    | some updated => exact isObject_drop? h hdrop

/-! ## Writes -/

def setAt (model : Model) (path : List String) (value : Value) :
    Except PointerError Model :=
  match h : model.root.setAt path value with
  | .ok updated => .ok ⟨updated, isObject_setAt model.root_isObject h⟩
  | .error e => .error e

def set (model : Model) (pointer : String) (value : Value) :
    Except PointerError Model := do
  let p ← Pointer.parse pointer
  model.setAt p.segments value

def removeAt (model : Model) (path : List String) : Model :=
  ⟨model.root.removeAt path, isObject_removeAt model.root_isObject path⟩

def remove (model : Model) (pointer : String) : Except PointerError Model := do
  let p ← Pointer.parse pointer
  .ok (model.removeAt p.segments)

end Model
end SurfaceFeed
