import SurfaceFeed.Fields

/-!
# Looking up fields

## Ascending lists are known by their look-ups

A list of fields that ascends holds at most one value for each name, and it is
the only ascending list with these values.  Sorting a list of fields therefore
comes down to what can be looked up in it.
-/

namespace SurfaceFeed
namespace Fields

variable {α : Type}

theorem find?_cons (field : String × α) (fields : List (String × α)) (name : String) :
    find? (field :: fields) name =
      if field.1 = name then some field.2 else find? fields name :=
  rfl

theorem mem_of_find? {fields : List (String × α)} {name : String} {value : α}
    (h : find? fields name = some value) : (name, value) ∈ fields := by
  induction fields with
  | nil => cases h
  | cons field fields ih =>
      rw [find?_cons] at h
      split at h
      · next hname =>
          cases h
          rw [← hname]
          exact List.mem_cons_self
      · exact List.mem_cons_of_mem field (ih h)

theorem find?_eq_none {fields : List (String × α)} {name : String}
    (h : forall field, field ∈ fields -> field.1 ≠ name) : find? fields name = none := by
  cases hfind : find? fields name with
  | none => rfl
  | some value => exact absurd rfl (h (name, value) (mem_of_find? hfind))

@[simp] theorem find?_append (front back : List (String × α)) (name : String) :
    find? (front ++ back) name = (find? front name).or (find? back name) := by
  induction front with
  | nil => rfl
  | cons field front ih =>
      rw [List.cons_append, find?_cons, find?_cons]
      split
      · rfl
      · exact ih

theorem find?_filter (keeps : String -> Bool) (fields : List (String × α)) (name : String) :
    find? (fields.filter fun field => keeps field.1) name =
      if keeps name then find? fields name else none := by
  induction fields with
  | nil => exact (ite_self none).symm
  | cons field fields ih =>
      rw [find?_cons]
      cases hkeeps : keeps field.1 with
      | true =>
          rw [List.filter_cons_of_pos (by exact hkeeps), find?_cons, ih]
          split
          · next hname => rw [← hname, if_pos hkeeps]
          · rfl
      | false =>
          rw [List.filter_cons_of_neg (by rw [hkeeps]; exact Bool.false_ne_true), ih]
          by_cases hname : field.1 = name
          · rw [← hname, hkeeps]
            rfl
          · rw [if_neg hname]

/-! ## Ascending lists -/

theorem Ascending.head_ne {field : String × α} {fields : List (String × α)}
    (h : Ascending (field :: fields)) : forall other, other ∈ fields -> other.1 ≠ field.1 := by
  intro other hmem hname
  have hless : field.1 < other.1 := (List.pairwise_cons.1 h).1 other hmem
  rw [hname] at hless
  exact String.lt_irrefl _ hless

theorem Ascending.find?_head {field : String × α} {fields : List (String × α)}
    (h : Ascending (field :: fields)) : find? fields field.1 = none :=
  find?_eq_none h.head_ne

theorem Ascending.tail {field : String × α} {fields : List (String × α)}
    (h : Ascending (field :: fields)) : Ascending fields :=
  (List.pairwise_cons.1 h).2

theorem Ascending.find?_of_lt {field : String × α} {fields : List (String × α)} {name : String}
    (h : Ascending (field :: fields)) (hless : name < field.1) :
    find? (field :: fields) name = none := by
  apply find?_eq_none
  intro other hmem hname
  rcases List.mem_cons.1 hmem with rfl | hmem
  · rw [hname] at hless
    exact String.lt_irrefl _ hless
  · have habove : field.1 < other.1 := (List.pairwise_cons.1 h).1 other hmem
    rw [hname] at habove
    exact String.lt_irrefl _ (String.lt_trans hless habove)

theorem Ascending.ext {as bs : List (String × α)} (ha : Ascending as) (hb : Ascending bs)
    (h : forall name, find? as name = find? bs name) : as = bs := by
  induction as generalizing bs with
  | nil =>
      cases bs with
      | nil => rfl
      | cons b bs =>
          have hfound := h b.1
          rw [find?_cons, if_pos rfl] at hfound
          cases hfound
  | cons a as ih =>
      cases bs with
      | nil =>
          have hfound := h a.1
          rw [find?_cons, if_pos rfl] at hfound
          cases hfound
      | cons b bs =>
          have hname : a.1 = b.1 := by
            apply String.le_antisymm
            · intro hless
              have hfound := h b.1
              rw [ha.find?_of_lt hless, find?_cons, if_pos rfl] at hfound
              cases hfound
            · intro hless
              have hfound := h a.1
              rw [hb.find?_of_lt hless, find?_cons, if_pos rfl] at hfound
              cases hfound
          have hvalue : a.2 = b.2 := by
            have hfound := h a.1
            rw [find?_cons, if_pos rfl, find?_cons, if_pos hname.symm] at hfound
            exact Option.some.inj hfound
          have hrest : as = bs := by
            apply ih ha.tail hb.tail
            intro name
            have hfound := h name
            rw [find?_cons, find?_cons, ← hname] at hfound
            by_cases hhead : a.1 = name
            · rw [← hhead, ha.find?_head, hname, hb.find?_head]
            · rw [if_neg hhead, if_neg hhead] at hfound
              exact hfound
          rw [hrest, Prod.ext hname hvalue]

/-! ## Sorting -/

theorem find?_foldl_insert (fields sorted : List (String × α)) (name : String) :
    find? (fields.foldl (fun sorted field => insert sorted field.1 field.2) sorted) name =
      (find? fields.reverse name).or (find? sorted name) := by
  induction fields generalizing sorted with
  | nil => rfl
  | cons field fields ih =>
      have hhead : find? (insert sorted field.1 field.2) name =
          (find? [field] name).or (find? sorted name) := by
        rw [find?_cons]
        split
        · next hname => rw [← hname, find?_insert_self]; rfl
        · next hname => rw [find?_insert_ne sorted field.2 hname]; rfl
      simp [ih, hhead, Option.or_assoc]

/-- Of two values for one name, sorting keeps the later one. -/
theorem find?_ofList (fields : List (String × α)) (name : String) :
    find? (ofList fields) name = find? fields.reverse name := by
  have hfold := find?_foldl_insert fields [] name
  rw [find?, Option.or_none] at hfold
  exact hfold

theorem Ascending.find?_reverse {fields : List (String × α)} (h : Ascending fields)
    (name : String) : find? fields.reverse name = find? fields name := by
  induction fields with
  | nil => rfl
  | cons field fields ih =>
      rw [List.reverse_cons, find?_append, ih h.tail, find?_cons, find?_cons]
      split
      · next hname => rw [← hname, h.find?_head]; rfl
      · exact Option.or_none

theorem Ascending.ofList_eq {fields : List (String × α)} (h : Ascending fields) :
    ofList fields = fields := by
  apply (ascending_ofList fields).ext h
  intro name
  rw [find?_ofList, h.find?_reverse]

/-! ## One insertion after another -/

theorem name_trichotomy (a b : String) : a < b ∨ a = b ∨ b < a :=
  Std.Trichotomous.rel_or_eq_or_rel_swap

theorem insert_of_lt {name key : String} (h : name < key) (value old : α)
    (fields : List (String × α)) :
    insert ((key, old) :: fields) name value = (name, value) :: (key, old) :: fields := by
  rw [insert, if_pos h]

theorem insert_head (name : String) (value old : α) (fields : List (String × α)) :
    insert ((name, old) :: fields) name value = (name, value) :: fields := by
  rw [insert, if_neg (String.lt_irrefl name), if_pos rfl]

theorem insert_of_gt {name key : String} (h : key < name) (value old : α)
    (fields : List (String × α)) :
    insert ((key, old) :: fields) name value = (key, old) :: insert fields name value := by
  have hne : name ≠ key := by
    intro heq
    rw [heq] at h
    exact String.lt_irrefl key h
  rw [insert, if_neg (String.lt_asymm h), if_neg hne]

theorem insert_insert (fields : List (String × α)) (name : String) (value later : α) :
    insert (insert fields name value) name later = insert fields name later := by
  induction fields with
  | nil => exact insert_head name later value []
  | cons field fields ih =>
      rcases field with ⟨key, old⟩
      rcases name_trichotomy name key with h | rfl | h
      · rw [insert_of_lt h, insert_of_lt h, insert_head]
      · rw [insert_head, insert_head, insert_head]
      · rw [insert_of_gt h, insert_of_gt h, insert_of_gt h, ih]

theorem insert_comm_of_lt (fields : List (String × α)) {a b : String} (hab : a < b)
    (value other : α) :
    insert (insert fields a value) b other = insert (insert fields b other) a value := by
  induction fields with
  | nil =>
      show insert [(a, value)] b other = insert [(b, other)] a value
      rw [insert_of_gt hab, insert_of_lt hab]
      rfl
  | cons field fields ih =>
      rcases field with ⟨key, old⟩
      rcases name_trichotomy a key with ha | rfl | ha
      · -- whatever becomes of `b`, the list then starts above `a`
        rw [insert_of_lt ha, insert_of_gt hab]
        rcases name_trichotomy b key with hb | rfl | hb
        · rw [insert_of_lt hb, insert_of_lt hab]
        · rw [insert_head, insert_of_lt ha]
        · rw [insert_of_gt hb, insert_of_lt ha]
      · rw [insert_head, insert_of_gt hab, insert_of_gt hab, insert_head]
      · have hb : key < b := String.lt_trans ha hab
        rw [insert_of_gt ha, insert_of_gt hb, insert_of_gt hb, insert_of_gt ha, ih]

theorem insert_comm (fields : List (String × α)) {a b : String} (hab : a ≠ b)
    (value other : α) :
    insert (insert fields a value) b other = insert (insert fields b other) a value := by
  rcases name_trichotomy a b with h | h | h
  · exact insert_comm_of_lt fields h value other
  · exact absurd h hab
  · exact (insert_comm_of_lt fields h other value).symm

end Fields
end SurfaceFeed
