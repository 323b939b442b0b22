import SurfaceFeed.Proofs.Frame

/-!
# What a removal does

## Removing as writing

What stands at a path is removed from the value above it, and the rest of the
root is what a write of this value leaves alone.  The write goes to a place that
is there, so it makes nothing and ends nothing on its way.

## The value above

An object keeps the fields with other names.  In a list all later elements move
up by one place.
-/

namespace SurfaceFeed
namespace Value

/-! ## Places that are there -/

theorem exists_of_child?_array {items : List Value} {segment : String} {child : Value}
    (h : (array items).child? segment = some child) :
    exists index : Nat, segment = toString index ∧ items[index]? = some child := by
  rw [child?] at h
  rcases Option.bind_eq_some_iff.1 h with ⟨index, hindex, hchild⟩
  exact ⟨index, indexOf?_eq_some_iff.1 hindex, hchild⟩

theorem lt_length_of_getElem? {items : List Value} {index : Nat} {child : Value}
    (h : items[index]? = some child) : index < items.length :=
  (List.getElem?_eq_some_iff.1 h).1

theorem placeAt_of_lt {items : List Value} {index : Nat} (h : index < items.length)
    (value : Value) : placeAt items index value = items.set index value := by
  have hgap : index - items.length = 0 := by omega
  simp [placeAt, hgap, List.set_eq_take_append_cons_drop, h]

section Found

variable {root found : Value} {path : List String} (h : root.getAt path = some found)

include h

theorem not_appends_of_found : ¬ Appends root path := by
  intro happends
  rcases happends with ⟨front, items, rest, rfl, hlist⟩
  rw [getAt_append_of_some hlist, getAt_cons, child?, indexOf?_dash] at h
  cases h

theorem getAt_put_below (value : Value) (rest : List String) :
    (put (some root) path value).getAt (path ++ rest) = value.getAt rest := by
  have hread := getAt_put (some root) path rest value
  rw [landing_of_not_appends (not_appends_of_found h)] at hread
  exact hread

/-- A write to a place that is there leaves all paths alone that part from its own. -/
theorem getAt_put_of_found {other : List String} (hbelow : ¬ path <+: other)
    (habove : ¬ other <+: path) (value : Value) :
    (put (some root) path value).getAt other = root.getAt other := by
  have hland := landing_of_not_appends (not_appends_of_found h)
  rcases exists_part hbelow habove with ⟨front, a, b, hab, ⟨rest, rfl⟩, ⟨more, rfl⟩⟩
  rw [List.append_assoc, List.singleton_append] at h hland
  rw [List.append_assoc, List.append_assoc, List.singleton_append, List.singleton_append]
  apply getAt_put_of_kept hland hab
  intro items hlist
  rw [getAt_append_of_some hlist, getAt_cons] at h
  rcases Option.bind_eq_some_iff.1 h with ⟨child, hchild, _⟩
  rcases exists_of_child?_array hchild with ⟨index, rfl, hindex⟩
  have hlength := lt_length_of_getElem? hindex
  constructor
  · exact ⟨index, rfl, Nat.le_add_right_of_le (Nat.le_of_lt hlength)⟩
  · intro hpads
    rcases hpads with ⟨i, j, hi, _, hend, hless⟩
    rw [toString_inj] at hi
    omega

end Found

/-! ## Removing as writing -/

theorem drop?_cons (value : Value) (segment : String) {rest : List String} (hrest : rest ≠ []) :
    value.drop? (segment :: rest) =
      (value.child? segment).bind fun child =>
        (child.drop? rest).map fun left => put (some value) [segment] left := by
  cases rest with
  | nil => exact absurd rfl hrest
  | cons next rest =>
      cases value with
      | null | bool | int | float | text => rfl
      | object fields =>
          rw [drop?, child?]
          · cases Fields.find? fields segment with
            | none => rfl
            | some child => rfl
          · exact hrest
      | array items =>
          rw [drop?, child?]
          · cases hindex : indexOf? segment with
            | none => rfl
            | some index =>
                rw [Option.bind_some]
                cases hchild : items[index]? with
                | none => simp only [hchild, Option.bind_none]
                | some child =>
                    have hlength := lt_length_of_getElem? hchild
                    have hnear : index ≤ items.length + largestGap :=
                      Nat.le_add_right_of_le (Nat.le_of_lt hlength)
                    have hplace : forall left,
                        put (some (array items)) [segment] left = array (items.set index left) := by
                      intro left
                      rw [indexOf?_eq_some_iff.1 hindex,
                        put_in_list (listTarget?_toString hnear), put, placeAt_of_lt hlength]
                    simp only [hchild, Option.bind_some, hplace]
          · exact hrest

theorem drop?_concat (root : Value) (parent : List String) (segment : String) :
    root.drop? (parent ++ [segment]) =
      (root.getAt parent).bind fun value =>
        (value.drop? [segment]).map fun left => put (some root) parent left := by
  induction parent generalizing root with
  | nil =>
      rw [getAt_nil, List.nil_append, Option.bind_some]
      simp only [put, Option.map_id']
  | cons first parent ih =>
      rw [List.cons_append, drop?_cons root first (by simp), getAt_cons]
      cases hchild : root.child? first with
      | none => rfl
      | some child =>
          have hput : forall left, put (some root) (first :: parent) left =
              put (some root) [first] (put (some child) parent left) := by
            intro left
            have hthere : getFrom (some root) [first] = some child := by
              rw [getFrom_singleton, Option.bind_some, hchild]
            rw [← List.singleton_append, put_append, hthere]
          rw [Option.bind_some, Option.bind_some, ih, Option.map_bind]
          simp only [hput, Option.map_map, Function.comp_def]

/-! ## The value above -/

theorem drop?_of_missing {value : Value} {segment : String} (h : value.child? segment = none) :
    value.drop? [segment] = none := by
  cases value with
  | null | bool | int | float | text => rfl
  | object fields =>
      rw [child?] at h
      rw [drop?, h]
      rfl
  | array items =>
      rw [child?] at h
      rw [drop?]
      cases hindex : indexOf? segment with
      | none => rfl
      | some index =>
          rw [hindex, Option.bind_some, List.getElem?_eq_none_iff] at h
          exact if_neg (Nat.not_lt.2 h)

theorem drop?_field {fields : List (String × Value)} {name : String} {found : Value}
    (h : (object fields).child? name = some found) :
    (object fields).drop? [name] = some (object (Fields.erase fields name)) := by
  rw [child?] at h
  rw [drop?, h]
  rfl

theorem drop?_element {items : List Value} {index : Nat} (h : index < items.length) :
    (array items).drop? [toString index] = some (array (items.eraseIdx index)) := by
  rw [drop?, indexOf?_toString]
  exact if_pos h

theorem parts_of_concat {parent other : List String} {segment : String}
    (hbelow : ¬ parent ++ [segment] <+: other) (habove : ¬ other <+: parent ++ [segment]) :
    (¬ parent <+: other ∧ ¬ other <+: parent) ∨
      exists b more, b ≠ segment ∧ other = parent ++ b :: more := by
  by_cases hparent : parent <+: other
  · rcases hparent with ⟨rest, rfl⟩
    cases rest with
    | nil =>
        rw [List.append_nil] at habove
        exact absurd (List.prefix_append parent [segment]) habove
    | cons b more =>
        refine Or.inr ⟨b, more, ?_, rfl⟩
        intro hb
        apply hbelow
        rw [hb, List.prefix_append_right_inj]
        exact List.cons_prefix_cons.2 ⟨rfl, List.nil_prefix⟩
  · refine Or.inl ⟨hparent, ?_⟩
    intro hfront
    exact habove (hfront.trans (List.prefix_append parent [segment]))

section Above

variable {root : Value} {parent : List String}

theorem getAt_without_field {fields : List (String × Value)}
    (hparent : root.getAt parent = some (object fields)) (name : String) {other : List String}
    (habove : ¬ other <+: parent ++ [name]) (hbelow : ¬ parent ++ [name] <+: other) :
    (put (some root) parent (object (Fields.erase fields name))).getAt other =
      root.getAt other := by
  rcases parts_of_concat hbelow habove with ⟨hbelow, habove⟩ | ⟨b, more, hb, rfl⟩
  · exact getAt_put_of_found hparent hbelow habove _
  · rw [getAt_put_below hparent, getAt_append_of_some hparent, getAt_cons, getAt_cons, child?,
      child?, Fields.find?_erase_ne _ (Ne.symm hb)]

/-- Each element of the list that is left was an element at its place or at the next one. -/
theorem getAt_without_element {items : List Value}
    (hparent : root.getAt parent = some (array items)) (index position : Nat)
    (rest : List String) :
    (put (some root) parent (array (items.eraseIdx index))).getAt
        (parent ++ toString position :: rest) =
      root.getAt
        (parent ++ toString (if position < index then position else position + 1) :: rest) := by
  rw [getAt_put_below hparent, getAt_append_of_some hparent, getAt_cons, getAt_cons,
    child?_array_toString, child?_array_toString, List.getElem?_eraseIdx]
  split <;> rfl

end Above

/-! ## Pointers -/

theorem remove_of_parse {pointer segment : String} {parent : List String}
    (hparse : Pointer.parse pointer = .ok ⟨parent ++ [segment]⟩) (root : Value) :
    root.remove pointer = .ok ((root.drop? (parent ++ [segment])).getD root) := by
  have hpath : (parent ++ [segment]).isEmpty = false := by
    cases parent <;> rfl
  rw [remove, hparse]
  show Except.ok (root.removeAt (parent ++ [segment])) = _
  rw [removeAt, hpath]
  rfl

/--
A removal below the root succeeds.  Where nothing stands at the path nothing
changes.  Otherwise an object above loses its field, or a list above loses its
element and the later ones move up; all else is read as before.
-/
theorem remove_below_root (root : Value) {pointer segment : String} {parent : List String}
    (hparse : Pointer.parse pointer = .ok ⟨parent ++ [segment]⟩) :
    (root.getAt (parent ++ [segment]) = none -> root.remove pointer = .ok root) ∧
    forall found, root.getAt (parent ++ [segment]) = some found ->
      exists left, root.remove pointer = .ok left ∧
        ((exists fields, root.getAt parent = some (object fields) ∧
            left.getAt (parent ++ [segment]) = none ∧
            forall other, ¬ other <+: parent ++ [segment] -> ¬ parent ++ [segment] <+: other ->
              left.getAt other = root.getAt other) ∨
          exists (items : List Value) (index : Nat), root.getAt parent = some (array items) ∧
            segment = toString index ∧ index < items.length ∧
            (exists kept, left.getAt parent = some (array kept) ∧
              kept.length = items.length - 1) ∧
            (forall position rest, position < index ->
              left.getAt (parent ++ toString position :: rest) =
                root.getAt (parent ++ toString position :: rest)) ∧
            (forall position rest, index ≤ position -> position < items.length - 1 ->
              left.getAt (parent ++ toString position :: rest) =
                root.getAt (parent ++ toString (position + 1) :: rest)) ∧
            forall other, ¬ other <+: parent -> ¬ parent <+: other ->
              left.getAt other = root.getAt other) := by
  have hremove := remove_of_parse hparse root
  rw [drop?_concat] at hremove
  rw [getAt_append]
  cases hparent : root.getAt parent with
  | none =>
      rw [hparent] at hremove
      refine ⟨fun _ => hremove, ?_⟩
      intro found hfound
      cases hfound
  | some value =>
      rw [hparent, Option.bind_some] at hremove
      rw [Option.bind_some, getAt_singleton]
      constructor
      · intro hmissing
        rw [drop?_of_missing hmissing] at hremove
        exact hremove
      · intro found hfound
        cases value with
        | null | bool | int | float | text => cases hfound
        | object fields =>
            rw [drop?_field hfound] at hremove
            refine ⟨_, hremove, Or.inl ⟨fields, rfl, ?_, ?_⟩⟩
            · show (put (some root) parent _).getAt (parent ++ [segment]) = none
              rw [getAt_put_below hparent, getAt_singleton, child?, Fields.find?_erase_self]
            · intro other habove hbelow
              exact getAt_without_field hparent segment habove hbelow
        | array items =>
            rcases exists_of_child?_array hfound with ⟨index, rfl, hindex⟩
            have hlength := lt_length_of_getElem? hindex
            rw [drop?_element hlength] at hremove
            refine ⟨_, hremove, Or.inr ⟨items, index, rfl, rfl, hlength, ?_, ?_, ?_, ?_⟩⟩
            · refine ⟨items.eraseIdx index, ?_, List.length_eraseIdx_of_lt hlength⟩
              have hleft := getAt_put_below hparent (array (items.eraseIdx index)) []
              rw [List.append_nil, getAt_nil] at hleft
              exact hleft
            · intro position rest hbefore
              have hread := getAt_without_element hparent index position rest
              rw [if_pos hbefore] at hread
              exact hread
            · intro position rest hafter _
              have hread := getAt_without_element hparent index position rest
              rw [if_neg (Nat.not_lt.2 hafter)] at hread
              exact hread
            · intro other habove hbelow
              exact getAt_put_of_found hparent hbelow habove _

theorem remove_below_root_of_list :
    let root := object [("list", array [int 1, int 2]), ("name", text "n")]
    (Pointer.parse "/list/0" = .ok ⟨["list"] ++ ["0"]⟩ ∧
      exists left, root.remove "/list/0" = .ok left ∧
        left.getAt ["list", "0"] = some (int 2) ∧ left.getAt ["name"] = some (text "n")) ∧
    (Pointer.parse "/name" = .ok ⟨[] ++ ["name"]⟩ ∧
      exists left, root.remove "/name" = .ok left ∧
        left.getAt ["name"] = none ∧ left.getAt ["list", "1"] = some (int 2)) ∧
    (Pointer.parse "/list/2" = .ok ⟨["list"] ++ ["2"]⟩ ∧ root.remove "/list/2" = .ok root) := by
  intro root
  have hlist : root.getAt ["list"] = some (array [int 1, int 2]) := rfl
  refine ⟨⟨rfl, ?_⟩, ⟨rfl, ?_⟩, ⟨rfl, ?_⟩⟩
  · have hparse : Pointer.parse "/list/0" = .ok ⟨["list"] ++ ["0"]⟩ := rfl
    rcases (remove_below_root root hparse).2 (int 1) rfl with ⟨left, hremove, hfield | helement⟩
    · rcases hfield with ⟨fields, hfields, _⟩
      rw [hlist] at hfields
      cases hfields
    · rcases helement with ⟨items, index, hitems, hindex, _, _, _, hafter, hother⟩
      rw [hlist] at hitems
      cases hitems
      have hzero : index = 0 := toString_inj.1 hindex.symm
      rw [hzero] at hafter
      have hmoved := hafter 0 [] (Nat.le_refl 0) (by decide)
      have hkept := hother ["name"] (by decide) (by decide)
      exact ⟨left, hremove, hmoved, hkept⟩
  · have hparse : Pointer.parse "/name" = .ok ⟨[] ++ ["name"]⟩ := rfl
    rcases (remove_below_root root hparse).2 (text "n") rfl with ⟨left, hremove, hfield | helement⟩
    · rcases hfield with ⟨_, _, hgone, hother⟩
      have hkept := hother ["list", "1"] (by decide) (by decide)
      exact ⟨left, hremove, hgone, hkept⟩
    · rcases helement with ⟨_, _, hitems, _⟩
      have hroot : root.getAt [] =
          some (object [("list", array [int 1, int 2]), ("name", text "n")]) := rfl
      rw [hroot] at hitems
      cases hitems
  · have hparse : Pointer.parse "/list/2" = .ok ⟨["list"] ++ ["2"]⟩ := rfl
    exact (remove_below_root root hparse).1 rfl

end Value
end SurfaceFeed
