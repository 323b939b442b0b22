import SurfaceFeed.Proofs.Fields
import SurfaceFeed.Proofs.Frame

/-!
# Writes one after the other

## The same path twice

A second write along a path finds what the first one made on its way, and makes
the same of it as of what was there before: a list that had a place for a segment
has one still, and an object that was made in place of something else holds
nothing but the way of the write.

## Paths that part

What two paths have in common can be written first.  This leaves two writes whose
first segments differ, at one value.  They go to two places of a list or to two
fields of an object, in either order, unless one of them ends the list in which
the other one has a place.
-/

namespace SurfaceFeed
namespace Value

/-! ## Two places of a list -/

theorem length_placeAt (items : List Value) (index : Nat) (value : Value) :
    (placeAt items index value).length = max items.length (index + 1) := by
  rw [placeAt, List.length_append, length_padded, List.length_cons, List.length_drop]
  omega

theorem placeAt_placeAt (items : List Value) (index : Nat) (value later : Value) :
    placeAt (placeAt items index value) index later = placeAt items index later := by
  apply List.ext_getElem?
  intro position
  simp only [getElem?_placeAt, length_placeAt]
  grind

theorem placeAt_comm (items : List Value) {i j : Nat} (hij : i ≠ j) (value other : Value) :
    placeAt (placeAt items i value) j other = placeAt (placeAt items j other) i value := by
  apply List.ext_getElem?
  intro position
  simp only [getElem?_placeAt, length_placeAt]
  grind

/-- A list that has been written to has all the places that it had. -/
theorem near_placeAt {items : List Value} {position : Nat}
    (h : position ≤ items.length + largestGap) (index : Nat) (value : Value) :
    position ≤ (placeAt items index value).length + largestGap := by
  rw [length_placeAt]
  omega

/-! ## The same path twice -/

theorem put_put {current : Option Value} {path : List String}
    (hland : landing current path = path) (value later : Value) :
    put (some (put current path value)) path later = put current path later := by
  induction path generalizing current with
  | nil =>
      rw [put, put]
  | cons segment path ih =>
      rw [landing] at hland
      rcases List.cons.inj hland with ⟨hsegment, hbelow⟩
      rw [← getFrom_singleton] at hbelow
      have hchild : getFrom (some (put current (segment :: path) value)) [segment] =
          some (put (getFrom current [segment]) path value) := by
        have hread : (put current (segment :: path) value).child?
            (landingSegment current segment) = _ := child?_put path value
        rw [hsegment, ← getFrom_singleton] at hread
        rw [getFrom_singleton]
        exact hread
      cases htarget : listTarget? current segment with
      | some target =>
          rcases target with ⟨items, index⟩
          rcases landingSegment_in_list htarget with ⟨hindex, hnear⟩
          rw [hsegment] at hindex
          subst hindex
          rw [put_in_list htarget] at hchild ⊢
          rw [put_in_list (listTarget?_toString (near_placeAt hnear _ _)), hchild, ih hbelow,
            placeAt_placeAt, put_in_list htarget]
      | none =>
          rw [put_in_object htarget] at hchild ⊢
          rw [put_in_object rfl, hchild, ih hbelow, fieldsOrNone, Fields.insert_insert,
            put_in_object htarget]

/-! ## Two segments at one value -/

/-- A null that fills a list gives way like a value that is missing. -/
theorem put_null (path : List String) (value : Value) :
    put (some null) path value = put none path value := by
  cases path <;> rfl

theorem put_put_in_list {items : List Value} {i j : Nat} (hi : i ≤ items.length + largestGap)
    (hj : j ≤ items.length + largestGap) (hij : i ≠ j) (front back : List String)
    (value other : Value) :
    put (some (put (some (array items)) (toString i :: front) value)) (toString j :: back) other =
      array (placeAt (placeAt items i (put items[i]? front value)) j
        (put items[j]? back other)) := by
  have hchild : getFrom (some (array items)) [toString i] = items[i]? := by
    rw [getFrom_singleton]
    exact child?_array_toString items i
  rw [put_in_list (listTarget?_toString hi), hchild,
    put_in_list (listTarget?_toString (near_placeAt hj i _)), getFrom_singleton, Option.bind_some,
    child?_array_toString, getElem?_placeAt, if_neg (Ne.symm hij)]
  split
  · rfl
  · next hend =>
      rw [List.getElem?_eq_none (Nat.le_of_not_lt hend)]
      split
      · rw [put_null]
      · rfl

theorem put_put_in_object {current : Option Value} {a b : String}
    (ha : listTarget? current a = none) (hb : listTarget? current b = none) (hab : a ≠ b)
    (front back : List String) (value other : Value) :
    put (some (put current (a :: front) value)) (b :: back) other =
      object (Fields.insert
        (Fields.insert (fieldsOrNone current) a (put (getFrom current [a]) front value)) b
        (put (getFrom current [b]) back other)) := by
  have hchild : forall child : Value,
      getFrom (some (object (Fields.insert (fieldsOrNone current) a child))) [b] =
        getFrom current [b] := by
    intro child
    rw [getFrom_singleton, Option.bind_some, child?, Fields.find?_insert_ne _ _ hab,
      find?_of_field hb, getFrom_singleton]
  rw [put_in_object ha, put_in_object rfl, fieldsOrNone, hchild]

theorem put_comm {current : Option Value} {a b : String} (hab : a ≠ b)
    (ha : landingSegment current a = a) (hb : landingSegment current b = b)
    (hlist : forall items, current = some (array items) ->
      (Addresses a items.length ↔ Addresses b items.length))
    (front back : List String) (value other : Value) :
    put (some (put current (a :: front) value)) (b :: back) other =
      put (some (put current (b :: back) other)) (a :: front) value := by
  cases htarget : listTarget? current a with
  | some target =>
      rcases target with ⟨items, i⟩
      rcases landingSegment_in_list htarget with ⟨hi, hnear⟩
      rcases eq_of_listTarget? htarget with ⟨rfl, _⟩
      rw [ha] at hi
      rcases (hlist items rfl).1 ⟨i, hi, hnear⟩ with ⟨j, hj, hnear'⟩
      have hij : i ≠ j := by
        intro heq
        exact hab (by rw [hi, hj, heq])
      rw [hi, hj, put_put_in_list hnear hnear' hij, put_put_in_list hnear' hnear hij.symm,
        placeAt_comm items hij]
  | none =>
      have hfield : listTarget? current b = none := by
        cases htarget' : listTarget? current b with
        | none => rfl
        | some target =>
            rcases target with ⟨items, j⟩
            have haddresses := landingSegment_in_list htarget'
            rcases eq_of_listTarget? htarget' with ⟨rfl, _⟩
            have hnot := not_addresses_of_field htarget
            rw [ha] at hnot
            rw [hb] at haddresses
            exact absurd ((hlist items rfl).2 ⟨j, haddresses⟩) hnot
      rw [put_put_in_object htarget hfield hab, put_put_in_object hfield htarget hab.symm,
        Fields.insert_comm _ hab]

/-! ## Whole paths -/

theorem put_put_append {current : Option Value} {front : List String}
    (hland : landing current front = front) (path other : List String) (value later : Value) :
    put (some (put current (front ++ path) value)) (front ++ other) later =
      put current front (put (some (put (getFrom current front) path value)) other later) := by
  have hread := getAt_put current front [] (put (getFrom current front) path value)
  rw [hland, List.append_nil, getAt_nil] at hread
  have hthere : getFrom (some (put current front (put (getFrom current front) path value))) front =
      some (put (getFrom current front) path value) := hread
  rw [put_append current front path, put_append _ front other, hthere, put_put hland]

theorem landing_concat {root : Value} {front : List String} {segment : String}
    (h : ¬ Appends root (front ++ [segment])) :
    landing (some root) front = front ∧
      landingSegment (root.getAt front) segment = segment := by
  have hwhole := landing_of_not_appends h
  rw [landing_append] at hwhole
  have hhalves := List.append_inj hwhole (length_landing (some root) front)
  exact ⟨hhalves.1, (List.cons.inj hhalves.2).1⟩

/--
Of two writes along one path that appends nothing the later one is the only one
that counts.  Two writes along paths that part can be made in either order,
unless one of them appends before they have parted, or ends a list in which the
other one has a place.
-/
theorem setAt_setAt (root value later : Value) {path : List String} (hpath : path ≠ []) :
    (¬ Appends root path ->
      exists once twice, root.setAt path value = .ok once ∧
        once.setAt path later = .ok twice ∧ root.setAt path later = .ok twice) ∧
    forall other, ¬ path <+: other -> ¬ other <+: path ->
      (exists front a b, Part front a b path other) ∧
      forall front a b, Part front a b path other ->
        ¬ Appends root (front ++ [a]) -> ¬ Appends root (front ++ [b]) ->
        (forall items, root.getAt front = some (array items) ->
          (Addresses a items.length ↔ Addresses b items.length)) ->
        exists first second both, root.setAt path value = .ok first ∧
          first.setAt other later = .ok both ∧ root.setAt other later = .ok second ∧
          second.setAt path value = .ok both := by
  constructor
  · intro hnot
    refine ⟨_, _, setAt_eq_put root value hpath, setAt_eq_put _ later hpath, ?_⟩
    rw [setAt_eq_put root later hpath, put_put (landing_of_not_appends hnot)]
  · intro other hbelow habove
    refine ⟨exists_part hbelow habove, ?_⟩
    intro front a b hpart ha hb hlist
    rcases hpart with ⟨hab, ⟨rest, rfl⟩, ⟨more, rfl⟩⟩
    have hother : front ++ [b] ++ more ≠ [] := by simp
    refine ⟨_, _, _, setAt_eq_put root value hpath, setAt_eq_put _ later hother,
      setAt_eq_put root later hother, ?_⟩
    rcases landing_concat ha with ⟨hfront, ha⟩
    have hb := (landing_concat hb).2
    rw [setAt_eq_put _ value hpath, List.append_assoc, List.append_assoc, put_put_append hfront,
      put_put_append hfront]
    show _ = Except.ok (put (some root) front
      (put (some (put (root.getAt front) (a :: rest) value)) (b :: more) later))
    rw [put_comm hab ha hb hlist]
    rfl

theorem not_appends_of_not_mem {path : List String} (h : "-" ∉ path) (root : Value) :
    ¬ Appends root path := by
  intro happends
  rcases happends with ⟨front, items, rest, rfl, _⟩
  exact h (List.mem_append_right front List.mem_cons_self)

theorem setAt_setAt_of_list :
    let root := object [("list", array [int 1])]
    ["list", "3"] ≠ [] ∧ ¬ Appends root ["list", "3"] ∧
      (exists once twice, root.setAt ["list", "3"] (int 4) = .ok once ∧
        once.setAt ["list", "3"] (int 5) = .ok twice ∧
        root.setAt ["list", "3"] (int 5) = .ok twice) ∧
      (¬ ["list", "3"] <+: ["list", "2", "x"] ∧ ¬ ["list", "2", "x"] <+: ["list", "3"]) ∧
      Part ["list"] "3" "2" ["list", "3"] ["list", "2", "x"] ∧
      ¬ Appends root ["list", "2"] ∧
      (forall items, root.getAt ["list"] = some (array items) ->
        (Addresses "3" items.length ↔ Addresses "2" items.length)) ∧
      exists first second both, root.setAt ["list", "3"] (int 4) = .ok first ∧
        first.setAt ["list", "2", "x"] (int 5) = .ok both ∧
        root.setAt ["list", "2", "x"] (int 5) = .ok second ∧
        second.setAt ["list", "3"] (int 4) = .ok both := by
  intro root
  have hpath : ["list", "3"] ≠ [] := List.cons_ne_nil _ _
  have hthree : ¬ Appends root ["list", "3"] := not_appends_of_not_mem (by decide) root
  have htwo : ¬ Appends root ["list", "2"] := not_appends_of_not_mem (by decide) root
  have hbelow : ¬ ["list", "3"] <+: ["list", "2", "x"] := by decide
  have habove : ¬ ["list", "2", "x"] <+: ["list", "3"] := by decide
  have hpart : Part ["list"] "3" "2" ["list", "3"] ["list", "2", "x"] :=
    ⟨by decide, List.prefix_rfl, List.prefix_append _ _⟩
  have hlist : forall items, root.getAt ["list"] = some (array items) ->
      (Addresses "3" items.length ↔ Addresses "2" items.length) := by
    intro items _
    have hnear : 3 ≤ items.length + largestGap :=
      Nat.le_trans (by decide) (Nat.le_add_left largestGap _)
    exact ⟨fun _ => ⟨2, rfl, Nat.le_of_succ_le hnear⟩, fun _ => ⟨3, rfl, hnear⟩⟩
  rcases setAt_setAt root (int 4) (int 5) hpath with ⟨hsame, hapart⟩
  have hboth := (hapart _ hbelow habove).2 _ _ _ hpart hthree htwo hlist
  exact ⟨hpath, hthree, hsame hthree, ⟨hbelow, habove⟩, hpart, htwo, hlist, hboth⟩

end Value
end SurfaceFeed
