/-!
# Named fields

## Objects as ascending lists

The fields of an object are kept as a list of names and values whose names
ascend strictly, in the order of their UTF-8 bytes.  Every operation below
keeps an ascending list ascending.
-/

namespace SurfaceFeed
namespace Fields

variable {α : Type}

def find? (fields : List (String × α)) (name : String) : Option α :=
  match fields with
  | [] => none
  | (key, value) :: rest => if key = name then some value else find? rest name

/-- Gives `name` the value `value`, in place of the value that it had. -/
def insert (fields : List (String × α)) (name : String) (value : α) :
    List (String × α) :=
  match fields with
  | [] => [(name, value)]
  | (key, old) :: rest =>
      if name < key then (name, value) :: (key, old) :: rest
      else if name = key then (name, value) :: rest
      else (key, old) :: insert rest name value

def erase (fields : List (String × α)) (name : String) : List (String × α) :=
  fields.filter fun field => field.1 != name

/-- The fields in ascending order; of two values for one name the later one. -/
def ofList (fields : List (String × α)) : List (String × α) :=
  fields.foldl (fun sorted field => insert sorted field.1 field.2) []

def Ascending (fields : List (String × α)) : Prop :=
  fields.Pairwise fun a b => a.1 < b.1

/-! ## What the operations do to a look-up -/

@[simp] theorem find?_insert_self (fields : List (String × α)) (name : String) (value : α) :
    find? (insert fields name value) name = some value := by
  induction fields with
  | nil => simp [insert, find?]
  | cons field rest ih =>
      rcases field with ⟨key, old⟩
      rw [insert]
      split
      · simp [find?]
      · split
        · simp [find?]
        · next h => simp [find?, Ne.symm h, ih]

theorem find?_insert_ne (fields : List (String × α)) {name other : String} (value : α)
    (h : name ≠ other) :
    find? (insert fields name value) other = find? fields other := by
  induction fields with
  | nil => simp [insert, find?, h]
  | cons field rest ih =>
      rcases field with ⟨key, old⟩
      rw [insert]
      split
      · simp [find?, h]
      · split
        · next hk => subst hk; simp [find?, h]
        · simp [find?, ih]

@[simp] theorem find?_erase_self (fields : List (String × α)) (name : String) :
    find? (erase fields name) name = none := by
  induction fields with
  | nil => rfl
  | cons field rest ih =>
      rcases field with ⟨key, old⟩
      by_cases h : key = name
      · simpa [erase, h] using ih
      · have ih' : find? (List.filter (fun field => field.1 != name) rest) name = none := ih
        simp [erase, h, find?, ih']

theorem find?_erase_ne (fields : List (String × α)) {name other : String}
    (h : name ≠ other) : find? (erase fields name) other = find? fields other := by
  induction fields with
  | nil => rfl
  | cons field rest ih =>
      rcases field with ⟨key, old⟩
      have ih' :
          find? (List.filter (fun field => field.1 != name) rest) other =
            find? rest other := ih
      by_cases hk : key = name
      · simp [erase, hk, find?, h, ih']
      · simp [erase, hk, find?, ih']

/-! ## Ascending lists stay ascending -/

theorem mem_insert {fields : List (String × α)} {name : String} {value : α}
    {field : String × α} (h : field ∈ insert fields name value) :
    field = (name, value) ∨ field ∈ fields := by
  induction fields with
  | nil => simpa [insert] using h
  | cons head rest ih =>
      rcases head with ⟨key, old⟩
      rw [insert] at h
      split at h
      · simpa using h
      · split at h
        · rcases List.mem_cons.1 h with h | h
          · exact Or.inl h
          · exact Or.inr (List.mem_cons_of_mem _ h)
        · rcases List.mem_cons.1 h with h | h
          · exact Or.inr (by simp [h])
          · rcases ih h with h | h
            · exact Or.inl h
            · exact Or.inr (List.mem_cons_of_mem _ h)

theorem Ascending.insert {fields : List (String × α)} (h : Ascending fields)
    (name : String) (value : α) : Ascending (insert fields name value) := by
  induction fields with
  | nil => simp [Ascending, Fields.insert]
  | cons head rest ih =>
      rcases head with ⟨key, old⟩
      have hrest := (List.pairwise_cons.1 h).2
      have hkey := (List.pairwise_cons.1 h).1
      rw [Ascending, Fields.insert]
      split
      · next hlt =>
          refine List.pairwise_cons.2 ⟨?_, h⟩
          intro field hfield
          rcases List.mem_cons.1 hfield with rfl | hfield
          · exact hlt
          · exact String.lt_trans hlt (hkey field hfield)
      · split
        · next heq =>
            subst heq
            exact List.pairwise_cons.2 ⟨hkey, hrest⟩
        · next hnot hne =>
            refine List.pairwise_cons.2 ⟨?_, ih hrest⟩
            intro field hfield
            rcases mem_insert hfield with rfl | hfield
            · grind
            · exact hkey field hfield

theorem ascending_ofList (fields : List (String × α)) : Ascending (ofList fields) := by
  suffices hfold : forall sorted : List (String × α), Ascending sorted ->
      Ascending
        (fields.foldl (fun sorted field => Fields.insert sorted field.1 field.2) sorted)
    from hfold [] List.Pairwise.nil
  induction fields with
  | nil => exact fun _ h => h
  | cons field rest ih => exact fun sorted h => ih _ (h.insert field.1 field.2)

end Fields
end SurfaceFeed
