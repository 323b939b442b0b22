import SurfaceFeed.Proofs.Path

/-!
# Reading back a write

## Where a write lands

A write puts its value where the same path leads to afterwards, whatever stood on
the way before.  The one exception is the segment that appends to a list: the
element that it makes is found at the length that the list had.  It can happen
once on a path, for there is nothing below an element that was not there.
-/

namespace SurfaceFeed
namespace Value

/-- The segment under which a write through `segment` leaves what it wrote. -/
def landingSegment : Option Value -> String -> String
  | some (array items), segment => if segment = "-" then toString items.length else segment
  | _, segment => segment

/-- The path that leads to the value after a write along a path. -/
def landing : Option Value -> List String -> List String
  | _, [] => []
  | current, segment :: rest =>
      landingSegment current segment ::
        landing (current.bind fun value => value.child? segment) rest

def Appends (root : Value) (path : List String) : Prop :=
  exists front items rest,
    path = front ++ "-" :: rest ∧ root.getAt front = some (array items)

/-! ## One segment

A write through a segment goes either to a place of a list or to a field of an
object.  In both cases reading the segment finds the place again.
-/

theorem length_padded (items : List Value) (index : Nat) :
    (items.take index ++ List.replicate (index - items.length) null).length = index := by
  rw [List.length_append, List.length_take, List.length_replicate]
  omega

theorem getElem?_placeAt_self (items : List Value) (index : Nat) (value : Value) :
    (placeAt items index value)[index]? = some value := by
  have hfront := length_padded items index
  rw [placeAt, List.getElem?_append_right (Nat.le_of_eq hfront), hfront, Nat.sub_self]
  rfl

section Segment

variable {current : Option Value} {segment : String} {items : List Value} {index : Nat}

theorem eq_of_listTarget? (h : listTarget? current segment = some (items, index)) :
    current = some (array items) ∧ writeIndex? segment items.length = some index := by
  unfold listTarget? at h
  split at h
  · next found =>
      rcases Option.map_eq_some_iff.1 h with ⟨position, hposition, hpair⟩
      cases hpair
      exact ⟨rfl, hposition⟩
  · cases h

theorem child?_of_writeIndex? (h : writeIndex? segment items.length = some index) :
    (array items).child? segment = items[index]? := by
  rw [writeIndex?] at h
  rw [child?]
  split at h
  · next hdash =>
      cases h
      rw [hdash, indexOf?_dash, List.getElem?_eq_none (Nat.le_refl _)]
      rfl
  · rw [(Option.filter_eq_some_iff.1 h).1]
    rfl

theorem child?_landingSegment (h : writeIndex? segment items.length = some index)
    (others : List Value) :
    (array others).child? (landingSegment (some (array items)) segment) = others[index]? := by
  rw [writeIndex?] at h
  rw [landingSegment]
  split at h
  · next hdash =>
      cases h
      rw [if_pos hdash, child?_array_toString]
  · next hdash =>
      rw [if_neg hdash, child?, (Option.filter_eq_some_iff.1 h).1]
      rfl

theorem landingSegment_of_field (h : listTarget? current segment = none) :
    landingSegment current segment = segment := by
  unfold landingSegment
  split
  · next items =>
      rw [listTarget?, Option.map_eq_none_iff, writeIndex?] at h
      split
      · next hdash => rw [if_pos hdash] at h; cases h
      · rfl
  · rfl

theorem find?_of_field (h : listTarget? current segment = none) :
    Fields.find? (fieldsOrNone current) segment =
      current.bind fun value => value.child? segment := by
  cases current with
  | none => rfl
  | some value =>
      cases value with
      | null | bool | int | float | text | object => rfl
      | array items =>
          rw [listTarget?, Option.map_eq_none_iff, writeIndex?] at h
          split at h
          · cases h
          · show none = (indexOf? segment).bind fun index => items[index]?
            cases hindex : indexOf? segment with
            | none => rfl
            | some index =>
                rw [hindex, Option.filter_some, ite_eq_right_iff] at h
                have hfar : ¬ index ≤ items.length + largestGap := by
                  intro hnear
                  exact absurd (h (decide_eq_true hnear)) (Option.some_ne_none index)
                have hbeyond := Nat.le_trans (Nat.le_add_right _ _) (Nat.le_of_not_le hfar)
                exact (List.getElem?_eq_none hbeyond).symm

theorem child?_put (rest : List String) (value : Value) :
    (put current (segment :: rest) value).child? (landingSegment current segment) =
      some (put (current.bind fun value => value.child? segment) rest value) := by
  rw [put]
  cases htarget : listTarget? current segment with
  | some target =>
      rcases target with ⟨items, index⟩
      rcases eq_of_listTarget? htarget with ⟨rfl, hindex⟩
      show (array (placeAt items index (put items[index]? rest value))).child? _ = _
      rw [child?_landingSegment hindex, getElem?_placeAt_self, Option.bind_some,
        child?_of_writeIndex? hindex]
  | none =>
      show (object (Fields.insert (fieldsOrNone current) segment _)).child? _ = _
      rw [landingSegment_of_field htarget, child?, Fields.find?_insert_self,
        find?_of_field htarget]

end Segment

/-! ## Whole paths -/

theorem getAt_put (current : Option Value) (path rest : List String) (value : Value) :
    (put current path value).getAt (landing current path ++ rest) = value.getAt rest := by
  induction path generalizing current with
  | nil => cases current <;> rfl
  | cons segment path ih =>
      rw [landing, List.cons_append, getAt_cons, child?_put]
      exact ih _

@[simp] theorem landing_none (path : List String) : landing none path = path := by
  induction path with
  | nil => rfl
  | cons segment path ih =>
      rw [landing, Option.bind_none, ih]
      rfl

theorem landingSegment_of_child? {value child : Value} {segment : String}
    (h : value.child? segment = some child) : landingSegment (some value) segment = segment := by
  cases value with
  | null | bool | int | float | text | object => rfl
  | array items =>
      rw [landingSegment]
      split
      · next hdash =>
          rw [hdash, child?, indexOf?_dash] at h
          cases h
      · rfl

theorem landing_of_appends {root : Value} {front : List String} {items : List Value}
    (h : root.getAt front = some (array items)) (rest : List String) :
    landing (some root) (front ++ "-" :: rest) = front ++ toString items.length :: rest := by
  induction front generalizing root with
  | nil =>
      rw [getAt_nil] at h
      cases h
      simp [landing, child?, landingSegment]
  | cons segment front ih =>
      rw [getAt_cons] at h
      rcases Option.bind_eq_some_iff.1 h with ⟨child, hchild, hfront⟩
      simp [landing, hchild, ih hfront, landingSegment_of_child? hchild]

theorem landing_of_not_appends {root : Value} {path : List String} (h : ¬ Appends root path) :
    landing (some root) path = path := by
  induction path generalizing root with
  | nil => rfl
  | cons segment path ih =>
      have hsegment : landingSegment (some root) segment = segment := by
        cases root with
        | null | bool | int | float | text | object => rfl
        | array items =>
            have hdash : segment ≠ "-" := by
              intro hdash
              rw [hdash] at h
              exact h ⟨[], items, path, rfl, getAt_nil _⟩
            rw [landingSegment, if_neg hdash]
      rw [landing, hsegment, Option.bind_some]
      cases hchild : root.child? segment with
      | none => rw [landing_none]
      | some child =>
          have hrest : ¬ Appends child path := by
            intro hchild'
            rcases hchild' with ⟨front, items, rest, rfl, hfront⟩
            refine h ⟨segment :: front, items, rest, rfl, ?_⟩
            rw [getAt_cons, hchild]
            exact hfront
          rw [ih hrest]

/--
A write below the root succeeds, and under the path that it lands on everything
is read that is read of the value it wrote.  This is the path of the write, with
the length of the list in place of a segment that appends; so what is written
without appending is read back at the same path, and at the same pointer.
-/
theorem getAt_setAt (root value : Value) {path : List String} (hpath : path ≠ []) :
    exists written, root.setAt path value = .ok written ∧
      (forall rest, written.getAt (landing (some root) path ++ rest) = value.getAt rest) ∧
      (forall front items rest, path = front ++ "-" :: rest ->
        root.getAt front = some (array items) ->
          landing (some root) path = front ++ toString items.length :: rest) ∧
      (¬ Appends root path ->
        landing (some root) path = path ∧ written.getAt path = some value ∧
          forall pointer, Pointer.parse pointer = .ok ⟨path⟩ ->
            root.set pointer value = .ok written ∧ written.get pointer = some value) := by
  have hset : root.setAt path value = .ok (put (some root) path value) := by
    cases path with
    | nil => exact absurd rfl hpath
    | cons segment path => rfl
  have hread := fun rest => getAt_put (some root) path rest value
  refine ⟨put (some root) path value, hset, hread, ?_, ?_⟩
  · intro front items rest hsplit hfront
    rw [hsplit]
    exact landing_of_appends hfront rest
  · intro hnot
    have hland := landing_of_not_appends hnot
    have hback : (put (some root) path value).getAt path = some value := by
      have hwhole := hread []
      rw [hland, List.append_nil, getAt_nil] at hwhole
      exact hwhole
    refine ⟨hland, hback, ?_⟩
    intro pointer hpointer
    rw [set, get, hpointer]
    exact ⟨hset, hback⟩

theorem getAt_setAt_of_list :
    let root := object [("list", array [int 1, int 2])]
    (["list", "-"] ≠ [] ∧ exists written, root.setAt ["list", "-"] (int 3) = .ok written ∧
      written.getAt ["list", "2"] = some (int 3)) ∧
    (["list", "name"] ≠ [] ∧ exists written, root.set "/list/name" (int 3) = .ok written ∧
      written.get "/list/name" = some (int 3)) := by
  intro root
  have hend : ["list", "-"] ≠ [] := List.cons_ne_nil _ _
  have hname : ["list", "name"] ≠ [] := List.cons_ne_nil _ _
  constructor
  · rcases getAt_setAt root (int 3) hend with ⟨written, hset, hread, hland, _⟩
    have hback := hread []
    rw [hland ["list"] [int 1, int 2] [] rfl rfl, List.append_nil, getAt_nil] at hback
    exact ⟨hend, written, hset, hback⟩
  · rcases getAt_setAt root (int 3) hname with ⟨written, _, _, _, hkept⟩
    have hnot : ¬ Appends root ["list", "name"] := by
      intro happends
      rcases happends with ⟨front, items, rest, hpath, _⟩
      have hdash : "-" ∈ ["list", "name"] := by
        rw [hpath]
        exact List.mem_append_right front List.mem_cons_self
      revert hdash
      decide
    exact ⟨hname, written, (hkept hnot).2.2 "/list/name" rfl⟩

end Value
end SurfaceFeed
