import SurfaceFeed.Proofs.ReadBack

/-!
# What a write leaves alone

## Writing in two halves

A write along a path is a write along the first half of it, of what a write along
the second half makes of the value that stood there.  So all that a write does
where another path parts from its own is done by one segment, at one value.

## One segment

An object keeps its other fields.  A list that has a place for the segment keeps
its other elements, and gets nulls in the places that are missing before the new
one; any other list gives way to an object, and with it all that it held.
-/

namespace SurfaceFeed
namespace Value

def getFrom (current : Option Value) (path : List String) : Option Value :=
  current.bind fun value => value.getAt path

@[simp] theorem getFrom_nil (current : Option Value) : getFrom current [] = current := by
  cases current with
  | none => rfl
  | some value => exact getAt_nil value

theorem getFrom_append (current : Option Value) (front rest : List String) :
    getFrom current (front ++ rest) = getFrom (getFrom current front) rest := by
  cases current with
  | none => rfl
  | some value => exact getAt_append value front rest

@[simp] theorem getAt_singleton (value : Value) (segment : String) :
    value.getAt [segment] = value.child? segment := by
  rw [getAt_cons]
  cases value.child? segment with
  | none => rfl
  | some child => exact getAt_nil child

theorem getFrom_singleton (current : Option Value) (segment : String) :
    getFrom current [segment] = current.bind fun value => value.child? segment := by
  cases current with
  | none => rfl
  | some value => exact getAt_singleton value segment

theorem getFrom_cons (current : Option Value) (segment : String) (rest : List String) :
    getFrom current (segment :: rest) = getFrom (getFrom current [segment]) rest :=
  getFrom_append current [segment] rest

/-! ## Writing in two halves -/

theorem setAt_eq_put (root value : Value) {path : List String} (hpath : path ≠ []) :
    root.setAt path value = .ok (put (some root) path value) := by
  cases path with
  | nil => exact absurd rfl hpath
  | cons segment path => rfl

section Segment

variable {current : Option Value} {segment : String} {items : List Value} {index : Nat}

theorem put_in_list (h : listTarget? current segment = some (items, index))
    (rest : List String) (value : Value) :
    put current (segment :: rest) value =
      array (placeAt items index (put (getFrom current [segment]) rest value)) := by
  rcases eq_of_listTarget? h with ⟨rfl, hindex⟩
  rw [put, h, getFrom_singleton, Option.bind_some, child?_of_writeIndex? hindex]

theorem put_in_object (h : listTarget? current segment = none)
    (rest : List String) (value : Value) :
    put current (segment :: rest) value =
      object (Fields.insert (fieldsOrNone current) segment
        (put (getFrom current [segment]) rest value)) := by
  rw [put, h, getFrom_singleton, ← find?_of_field h]

end Segment

theorem put_append (current : Option Value) (front rest : List String) (value : Value) :
    put current (front ++ rest) value =
      put current front (put (getFrom current front) rest value) := by
  induction front generalizing current with
  | nil =>
      rw [getFrom_nil, put]
      rfl
  | cons segment front ih =>
      rw [List.cons_append, getFrom_cons]
      cases htarget : listTarget? current segment with
      | some target => rw [put_in_list htarget, put_in_list htarget, ih]
      | none => rw [put_in_object htarget, put_in_object htarget, ih]

theorem landing_append (current : Option Value) (front rest : List String) :
    landing current (front ++ rest) =
      landing current front ++ landing (getFrom current front) rest := by
  induction front generalizing current with
  | nil =>
      rw [getFrom_nil, landing]
      rfl
  | cons segment front ih =>
      simp [landing, ih, getFrom_cons current segment front, getFrom_singleton]

theorem length_landing (current : Option Value) (path : List String) :
    (landing current path).length = path.length := by
  induction path generalizing current with
  | nil => rfl
  | cons segment path ih => rw [landing, List.length_cons, List.length_cons, ih]

theorem getFrom_landingSegment (current : Option Value) (segment : String) :
    getFrom current [landingSegment current segment] = getFrom current [segment] := by
  rw [getFrom_singleton, getFrom_singleton]
  cases current with
  | none => rfl
  | some value =>
      cases value with
      | null | bool | int | float | text | object => rfl
      | array items =>
          rw [landingSegment]
          split
          · next hdash =>
              have hend : items[items.length]? = none := List.getElem?_eq_none (Nat.le_refl _)
              rw [Option.bind_some, child?_array_toString, hend, hdash]
              rfl
          · rfl

theorem getFrom_landing (current : Option Value) (path : List String) :
    getFrom current (landing current path) = getFrom current path := by
  induction path generalizing current with
  | nil => rfl
  | cons segment path ih =>
      rw [landing, ← getFrom_singleton, getFrom_cons, getFrom_landingSegment, ih, ← getFrom_cons]

/-- A front of the path that a write lands on is where a front of its own path lands. -/
theorem exists_of_landing {current : Option Value} {path front rest : List String} {a : String}
    (h : landing current path = front ++ a :: rest) :
    exists before segment below, path = before ++ segment :: below ∧
      landing current before = front ∧ landingSegment (getFrom current before) segment = a := by
  induction front generalizing current path with
  | nil =>
      cases path with
      | nil => cases h
      | cons segment path =>
          rw [landing] at h
          refine ⟨[], segment, path, rfl, rfl, ?_⟩
          rw [getFrom_nil]
          exact (List.cons.inj h).1
  | cons first front ih =>
      cases path with
      | nil => cases h
      | cons segment path =>
          rw [landing, ← getFrom_singleton] at h
          rcases List.cons.inj h with ⟨hfirst, hrest⟩
          rcases ih hrest with ⟨before, next, below, rfl, hbefore, hnext⟩
          refine ⟨segment :: before, next, below, rfl, ?_, ?_⟩
          · rw [landing, ← getFrom_singleton, hfirst, hbefore]
          · rw [getFrom_cons]
            exact hnext

/-- Behind the segments before `a`, what is read of the new value is what one segment wrote. -/
theorem exists_put_of_landing {current : Option Value} {path front rest : List String} {a : String}
    (h : landing current path = front ++ a :: rest) (value : Value) :
    exists segment below,
      landingSegment (getFrom current front) segment = a ∧
        forall more, (put current path value).getAt (front ++ more) =
          (put (getFrom current front) (segment :: below) value).getAt more := by
  rcases exists_of_landing h with ⟨before, segment, below, rfl, rfl, ha⟩
  rw [getFrom_landing]
  refine ⟨segment, below, ha, ?_⟩
  intro more
  rw [put_append]
  exact getAt_put current before more _

/-! ## The places of a list -/

theorem getElem?_placeAt (items : List Value) (index : Nat) (value : Value) (position : Nat) :
    (placeAt items index value)[position]? =
      if position = index then some value
      else if position < items.length then items[position]?
      else if position < index then some null else none := by
  by_cases hself : position = index
  · rw [if_pos hself, hself, getElem?_placeAt_self]
  · have hfront := length_padded items index
    rw [if_neg hself, placeAt]
    by_cases hbefore : position < index
    · rw [List.getElem?_append_left (by rw [hfront]; exact hbefore)]
      by_cases hinside : position < items.length
      · have htake : position < (items.take index).length := by
          rw [List.length_take]
          omega
        rw [if_pos hinside, List.getElem?_append_left htake, List.getElem?_take_of_lt hbefore]
      · have hlength : (items.take index).length = items.length := by
          rw [List.length_take]
          omega
        rw [if_neg hinside, if_pos hbefore,
          List.getElem?_append_right (by rw [hlength]; exact Nat.le_of_not_lt hinside),
          List.getElem?_replicate_of_lt (by rw [hlength]; omega)]
    · have hafter : position = index + 1 + (position - index - 1) := by omega
      rw [List.getElem?_append_right (by rw [hfront]; exact Nat.le_of_not_lt hbefore), hfront,
        if_neg hbefore]
      have hshift : position - index = (position - index - 1) + 1 := by omega
      rw [hshift, List.getElem?_cons_succ, List.getElem?_drop, ← hafter]
      split
      · rfl
      · next houtside => exact List.getElem?_eq_none (Nat.le_of_not_lt houtside)

/-- A write through `segment` finds or makes its place in a list of `length` elements. -/
def Addresses (segment : String) (length : Nat) : Prop :=
  exists index, segment = toString index ∧ index ≤ length + largestGap

def Pads (length : Nat) (a b : String) : Prop :=
  exists i j, a = toString i ∧ b = toString j ∧ length ≤ j ∧ j < i

theorem writeIndex?_eq_some_iff {segment : String} {length index : Nat} :
    writeIndex? segment length = some index ↔
      (segment = "-" ∧ index = length) ∨
        (segment = toString index ∧ index ≤ length + largestGap) := by
  rw [writeIndex?]
  split
  · next hdash =>
      constructor
      · intro h
        exact Or.inl ⟨hdash, (Option.some.inj h).symm⟩
      · intro h
        rcases h with ⟨_, rfl⟩ | ⟨hindex, _⟩
        · rfl
        · have hnone := indexOf?_dash
          rw [← hdash, hindex, indexOf?_toString] at hnone
          cases hnone
  · next hdash =>
      rw [Option.filter_eq_some_iff, indexOf?_eq_some_iff, decide_eq_true_iff]
      exact ⟨Or.inr, fun h => h.resolve_left fun hleft => hdash hleft.1⟩

section Segment

variable {current : Option Value} {segment : String} {items : List Value} {index : Nat}

theorem landingSegment_in_list (h : listTarget? current segment = some (items, index)) :
    landingSegment current segment = toString index ∧ index ≤ items.length + largestGap := by
  rcases eq_of_listTarget? h with ⟨rfl, hindex⟩
  rw [landingSegment]
  rcases writeIndex?_eq_some_iff.1 hindex with ⟨hdash, rfl⟩ | ⟨hsegment, hnear⟩
  · exact ⟨if_pos hdash, Nat.le_add_right _ _⟩
  · have hdash : segment ≠ "-" := by
      intro hdash
      have hnone := indexOf?_dash
      rw [← hdash, hsegment, indexOf?_toString] at hnone
      cases hnone
    exact ⟨(if_neg hdash).trans hsegment, hnear⟩

theorem listTarget?_toString (h : index ≤ items.length + largestGap) :
    listTarget? (some (array items)) (toString index) = some (items, index) := by
  rw [listTarget?, writeIndex?_eq_some_iff.2 (Or.inr ⟨rfl, h⟩)]
  rfl

theorem not_addresses_of_field (h : listTarget? (some (array items)) segment = none) :
    ¬ Addresses (landingSegment (some (array items)) segment) items.length := by
  intro haddresses
  rcases haddresses with ⟨index, hindex, hnear⟩
  rw [landingSegment_of_field h] at hindex
  rw [listTarget?, Option.map_eq_none_iff,
    writeIndex?_eq_some_iff.2 (Or.inr ⟨hindex, hnear⟩)] at h
  cases h

end Segment

/-! ## One segment -/

section Elsewhere

variable {current : Option Value} {segment other : String}
  (hother : other ≠ landingSegment current segment)

include hother

theorem child?_put_of_replaced {items : List Value} (hlist : current = some (array items))
    (hnot : ¬ Addresses (landingSegment current segment) items.length)
    (below : List String) (value : Value) :
    (put current (segment :: below) value).child? other = none := by
  cases htarget : listTarget? current segment with
  | some target =>
      rcases target with ⟨found, index⟩
      have hcurrent := (eq_of_listTarget? htarget).1
      rw [hlist] at hcurrent
      cases hcurrent
      exact absurd ⟨index, landingSegment_in_list htarget⟩ hnot
  | none =>
      rw [landingSegment_of_field htarget] at hother
      rw [put_in_object htarget, child?, Fields.find?_insert_ne _ _ (Ne.symm hother), hlist]
      rfl

theorem child?_put_of_pads {items : List Value} (hlist : current = some (array items))
    (haddresses : Addresses (landingSegment current segment) items.length)
    (hpads : Pads items.length (landingSegment current segment) other)
    (below : List String) (value : Value) :
    (put current (segment :: below) value).child? other = some null := by
  subst hlist
  cases htarget : listTarget? (some (array items)) segment with
  | none => exact absurd haddresses (not_addresses_of_field htarget)
  | some target =>
      rcases target with ⟨found, index⟩
      cases (eq_of_listTarget? htarget).1
      rcases hpads with ⟨i, j, hi, hj, hend, hless⟩
      rw [(landingSegment_in_list htarget).1, toString_inj] at hi
      subst hi
      rw [put_in_list htarget, hj, child?_array_toString, getElem?_placeAt,
        if_neg (Nat.ne_of_lt hless), if_neg (Nat.not_lt.2 hend), if_pos hless]

theorem child?_put_of_kept
    (hkept : forall items, current = some (array items) ->
      Addresses (landingSegment current segment) items.length ∧
        ¬ Pads items.length (landingSegment current segment) other)
    (below : List String) (value : Value) :
    (put current (segment :: below) value).child? other =
      current.bind fun value => value.child? other := by
  cases htarget : listTarget? current segment with
  | some target =>
      rcases target with ⟨items, index⟩
      rcases eq_of_listTarget? htarget with ⟨rfl, _⟩
      have hland := (landingSegment_in_list htarget).1
      have hpads := (hkept items rfl).2
      rw [put_in_list htarget, Option.bind_some, child?, child?]
      cases hindex : indexOf? other with
      | none => rfl
      | some j =>
          have hj : other = toString j := indexOf?_eq_some_iff.1 hindex
          have hne : j ≠ index := by
            intro heq
            exact hother (by rw [hj, heq, hland])
          show (placeAt items index _)[j]? = items[j]?
          rw [getElem?_placeAt, if_neg hne]
          split
          · rfl
          · next hend =>
              rw [List.getElem?_eq_none (Nat.le_of_not_lt hend), if_neg]
              intro hless
              exact hpads ⟨index, j, hland, hj, Nat.le_of_not_lt hend, hless⟩
  | none =>
      have hfield : listTarget? current other = none := by
        cases current with
        | none => rfl
        | some value =>
            cases value with
            | null | bool | int | float | text | object => rfl
            | array items => exact absurd (hkept items rfl).1 (not_addresses_of_field htarget)
      rw [landingSegment_of_field htarget] at hother
      rw [put_in_object htarget, child?, Fields.find?_insert_ne _ _ (Ne.symm hother),
        find?_of_field hfield]

end Elsewhere

/-! ## Whole paths -/

section Parting

variable {root : Value} {path front rest : List String} {a b : String}
  (hland : landing (some root) path = front ++ a :: rest) (hab : a ≠ b)

include hland hab

theorem getAt_put_of_replaced {items : List Value} (hlist : root.getAt front = some (array items))
    (hnot : ¬ Addresses a items.length) (value : Value) (more : List String) :
    (put (some root) path value).getAt (front ++ b :: more) = none := by
  rcases exists_put_of_landing hland value with ⟨segment, below, rfl, hread⟩
  rw [hread, getAt_cons, child?_put_of_replaced hab.symm hlist hnot]
  rfl

theorem getAt_put_of_pads {items : List Value} (hlist : root.getAt front = some (array items))
    (haddresses : Addresses a items.length) (hpads : Pads items.length a b)
    (value : Value) (more : List String) :
    (put (some root) path value).getAt (front ++ b :: more) = null.getAt more := by
  rcases exists_put_of_landing hland value with ⟨segment, below, rfl, hread⟩
  rw [hread, getAt_cons, child?_put_of_pads hab.symm hlist haddresses hpads]
  rfl

theorem getAt_put_of_kept
    (hkept : forall items, root.getAt front = some (array items) ->
      Addresses a items.length ∧ ¬ Pads items.length a b)
    (value : Value) (more : List String) :
    (put (some root) path value).getAt (front ++ b :: more) = root.getAt (front ++ b :: more) := by
  rcases exists_put_of_landing hland value with ⟨segment, below, rfl, hread⟩
  have hthere : getFrom (some root) front = root.getAt front := rfl
  rw [hread, getAt_cons, child?_put_of_kept hab.symm hkept, hthere, getAt_append]
  cases root.getAt front with
  | none => rfl
  | some value => exact (getAt_cons value b more).symm

end Parting

/-- Behind `front` a list gets a null at `b` when a place for `a` is made in it. -/
def PadsAt (root : Value) (front : List String) (a b : String) : Prop :=
  exists items, root.getAt front = some (array items) ∧ Pads items.length a b

theorem PadsAt.getAt_eq_none {root : Value} {front : List String} {a b : String}
    (h : PadsAt root front a b) (more : List String) : root.getAt (front ++ b :: more) = none := by
  rcases h with ⟨items, hlist, i, j, _, hj, hend, _⟩
  rw [getAt_append_of_some hlist, getAt_cons, hj, child?_array_toString,
    List.getElem?_eq_none hend]
  rfl

/--
A write below the root succeeds.  Another path parts from the one that it lands
on at some segment.  If it parts in a list in which the write has no place,
nothing is left of the list.  In every other case the same is read along the
other path as before, but for the nulls in front of a new place.
-/
theorem getAt_setAt_elsewhere (root value : Value) {path : List String} (hpath : path ≠ []) :
    exists written, root.setAt path value = .ok written ∧
      forall other, ¬ landing (some root) path <+: other -> ¬ other <+: landing (some root) path ->
        (exists front a b, Part front a b (landing (some root) path) other) ∧
        forall front a b, Part front a b (landing (some root) path) other ->
          (forall items, root.getAt front = some (array items) ->
            ¬ Addresses a items.length -> written.getAt other = none) ∧
          ((forall items, root.getAt front = some (array items) -> Addresses a items.length) ->
            (¬ (PadsAt root front a b ∧ other = front ++ [b]) ->
              written.getAt other = root.getAt other) ∧
            (PadsAt root front a b ->
              root.getAt (front ++ [b]) = none ∧ written.getAt (front ++ [b]) = some null)) := by
  refine ⟨put (some root) path value, setAt_eq_put root value hpath, ?_⟩
  intro other hbelow habove
  refine ⟨exists_part hbelow habove, ?_⟩
  intro front a b hpart
  rcases hpart with ⟨hab, ⟨rest, hland⟩, ⟨more, rfl⟩⟩
  rw [List.append_assoc, List.singleton_append] at hland
  rw [List.append_assoc, List.singleton_append]
  constructor
  · intro items hlist hnot
    exact getAt_put_of_replaced hland.symm hab hlist hnot value more
  · intro haddresses
    constructor
    · intro hkeeps
      by_cases hpads : PadsAt root front a b
      · -- nothing was below the missing element, and nothing is below a null
        rw [hpads.getAt_eq_none]
        rcases hpads with ⟨items, hlist, hpads⟩
        rw [getAt_put_of_pads hland.symm hab hlist (haddresses items hlist) hpads]
        cases more with
        | nil => exact absurd ⟨⟨items, hlist, hpads⟩, rfl⟩ hkeeps
        | cons => rfl
      · apply getAt_put_of_kept hland.symm hab
        intro items hlist
        exact ⟨haddresses items hlist, fun h => hpads ⟨items, hlist, h⟩⟩
    · intro hpads
      refine ⟨hpads.getAt_eq_none [], ?_⟩
      rcases hpads with ⟨items, hlist, hpads⟩
      exact getAt_put_of_pads hland.symm hab hlist (haddresses items hlist) hpads value []

theorem getAt_setAt_elsewhere_of_list :
    let root := object [("list", array [int 1, int 2]), ("name", text "n")]
    (["list", "3"] ≠ [] ∧
      (¬ landing (some root) ["list", "3"] <+: ["list", "2"] ∧
        ¬ ["list", "2"] <+: landing (some root) ["list", "3"]) ∧
      exists written, root.setAt ["list", "3"] (int 4) = .ok written ∧
        written.getAt ["list", "2"] = some null) ∧
    (["list", "last"] ≠ [] ∧
      (¬ landing (some root) ["list", "last"] <+: ["list", "0"] ∧
        ¬ ["list", "0"] <+: landing (some root) ["list", "last"]) ∧
      exists written, root.setAt ["list", "last"] (int 4) = .ok written ∧
        written.getAt ["list", "0"] = none) := by
  intro root
  have hlist : root.getAt ["list"] = some (array [int 1, int 2]) := rfl
  have hend : ["list", "3"] ≠ [] := List.cons_ne_nil _ _
  have hname : ["list", "last"] ≠ [] := List.cons_ne_nil _ _
  have hpastEnd : landing (some root) ["list", "3"] = ["list", "3"] := rfl
  have hpastName : landing (some root) ["list", "last"] = ["list", "last"] := rfl
  constructor
  · have happart : ¬ ["list", "3"] <+: ["list", "2"] ∧ ¬ ["list", "2"] <+: ["list", "3"] := by
      decide
    rcases getAt_setAt_elsewhere root (int 4) hend with ⟨written, hset, hread⟩
    rw [hpastEnd] at hread ⊢
    have hpart : Part ["list"] "3" "2" ["list", "3"] ["list", "2"] :=
      ⟨by decide, List.prefix_rfl, List.prefix_rfl⟩
    have haddresses : forall items, root.getAt ["list"] = some (array items) ->
        Addresses "3" items.length := by
      intro items hitems
      rw [hlist] at hitems
      cases hitems
      exact ⟨3, rfl, by decide⟩
    have hpads : PadsAt root ["list"] "3" "2" :=
      ⟨[int 1, int 2], hlist, 3, 2, rfl, rfl, by decide, by decide⟩
    have hnull := (((hread _ happart.1 happart.2).2 _ _ _ hpart).2 haddresses).2 hpads
    exact ⟨hend, happart, written, hset, hnull.2⟩
  · have happart : ¬ ["list", "last"] <+: ["list", "0"] ∧ ¬ ["list", "0"] <+: ["list", "last"] := by
      decide
    rcases getAt_setAt_elsewhere root (int 4) hname with ⟨written, hset, hread⟩
    rw [hpastName] at hread ⊢
    have hpart : Part ["list"] "last" "0" ["list", "last"] ["list", "0"] :=
      ⟨by decide, List.prefix_rfl, List.prefix_rfl⟩
    have hnot : ¬ Addresses "last" [int 1, int 2].length := by
      intro haddresses
      rcases haddresses with ⟨index, hindex, _⟩
      have hnone : indexOf? "last" = none := by decide
      rw [hindex, indexOf?_toString] at hnone
      cases hnone
    have hlost := ((hread _ happart.1 happart.2).2 _ _ _ hpart).1 _ hlist hnot
    exact ⟨hname, happart, written, hset, hlost⟩

end Value
end SurfaceFeed
