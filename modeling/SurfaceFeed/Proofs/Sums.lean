import Mathlib.Algebra.Order.BigOperators.Group.List
import Mathlib.Algebra.Ring.Int.Defs
import SurfaceFeed.Expression

/-!
# Sums of integers

## Which sums stay whole

The integer sum of the members is kept as long as every total on the way has 64
bits.  Whether it is kept depends on the order of the members then, while the
sum itself does not: a sum of 64 bits is reached in one order at least, and in
every order just if the positive integers have such a sum, and the negative ones.
-/

namespace SurfaceFeed

namespace Value

def Fits (n : Int) : Prop :=
  smallestInt ≤ n ∧ n ≤ largestInt

instance (n : Int) : Decidable (Fits n) :=
  inferInstanceAs (Decidable (smallestInt ≤ n ∧ n ≤ largestInt))

theorem fits_iff {n : Int} : Fits n ↔ -(2 ^ 63) ≤ n ∧ n < 2 ^ 63 := by
  have hsmallest : smallestInt = -(2 ^ 63) := rfl
  have hlargest : largestInt = 2 ^ 63 - 1 := rfl
  rw [Fits, hsmallest, hlargest]
  omega

theorem fits_toInt (n : Int64) : Fits n.toInt :=
  ⟨n.minValue_le_toInt, n.toInt_le⟩

theorem toInt_ofInt_of_fits {n : Int} (h : Fits n) : (Int64.ofInt n).toInt = n := by
  rcases fits_iff.1 h with ⟨hlow, hhigh⟩
  exact Int64.toInt_ofInt_of_le hlow hhigh

theorem int64?_of_fits {n : Int} (h : Fits n) : int64? n = some (Int64.ofInt n) :=
  if_pos h

theorem int64?_of_not_fits {n : Int} (h : ¬ Fits n) : int64? n = none :=
  if_neg h

theorem Fits.of_between {low n high : Int} (hlow : Fits low) (hhigh : Fits high)
    (hle : low ≤ n) (hge : n ≤ high) : Fits n :=
  ⟨Int.le_trans hlow.1 hle, Int.le_trans hge hhigh.2⟩

def integer? : Value -> Option Int
  | int n => some n.toInt
  | _ => none

def isFloat : Value -> Bool
  | float _ => true
  | _ => false

theorem fits_of_integer? {value : Value} {n : Int} (h : value.integer? = some n) : Fits n := by
  cases value with
  | int k =>
      cases h
      exact fits_toInt k
  | _ => cases h

def integers (members : List Value) : List Int :=
  members.filterMap integer?

section Integers

variable {member : Value} {n : Int} (members : List Value)

theorem integers_cons_of_some (h : member.integer? = some n) :
    integers (member :: members) = n :: integers members :=
  List.filterMap_cons_some h

theorem integers_cons_of_none (h : member.integer? = none) :
    integers (member :: members) = integers members :=
  List.filterMap_cons_none h

@[simp] theorem integers_append (front back : List Value) :
    integers (front ++ back) = integers front ++ integers back :=
  List.filterMap_append

theorem integers_perm {order members : List Value} (h : order.Perm members) :
    (integers order).Perm (integers members) :=
  h.filterMap integer?

theorem fits_of_mem_integers {members : List Value} (h : n ∈ integers members) : Fits n := by
  rcases List.mem_filterMap.1 h with ⟨member, _, hinteger⟩
  exact fits_of_integer? hinteger

end Integers

/-! ## Totals on the way -/

/-- No total on the way from `start` leaves the 64 bits. -/
def StaysInBounds (start : Int) (ints : List Int) : Prop :=
  forall front, front <+: ints -> Fits (start + front.sum)

theorem StaysInBounds.fits_start {start : Int} {ints : List Int} (h : StaysInBounds start ints) :
    Fits start := by
  have hstart := h [] List.nil_prefix
  rwa [List.sum_nil, Int.add_zero] at hstart

@[simp] theorem staysInBounds_nil {start : Int} : StaysInBounds start [] ↔ Fits start := by
  refine ⟨StaysInBounds.fits_start, ?_⟩
  intro h front hfront
  rw [List.prefix_nil.1 hfront, List.sum_nil, Int.add_zero]
  exact h

@[simp] theorem staysInBounds_cons {start n : Int} {ints : List Int} :
    StaysInBounds start (n :: ints) ↔ Fits start ∧ StaysInBounds (start + n) ints := by
  constructor
  · intro h
    refine ⟨h.fits_start, ?_⟩
    intro front hfront
    have hnext := h (n :: front) ((List.prefix_cons_inj n).2 hfront)
    rwa [List.sum_cons, ← Int.add_assoc] at hnext
  · rintro ⟨hstart, hnext⟩ front hfront
    rcases List.prefix_cons_iff.1 hfront with rfl | ⟨rest, rfl, hrest⟩
    · rwa [List.sum_nil, Int.add_zero]
    · rw [List.sum_cons, ← Int.add_assoc]
      exact hnext rest hrest

theorem StaysInBounds.fits_sum {start : Int} {ints : List Int} (h : StaysInBounds start ints) :
    Fits (start + ints.sum) :=
  h ints (List.prefix_refl ints)

/-! ## Orders of the members -/

theorem sum_filter_cons (test : Int -> Bool) (n : Int) (ints : List Int) :
    ((n :: ints).filter test).sum = (if test n = true then n else 0) + (ints.filter test).sum := by
  rw [List.filter_cons]
  split
  · exact List.sum_cons
  · exact (Int.zero_add _).symm

theorem sum_between {part ints : List Int} (h : part.Sublist ints) :
    (ints.filter (· < 0)).sum ≤ part.sum ∧ part.sum ≤ (ints.filter (0 < ·)).sum := by
  induction h with
  | slnil => exact ⟨Int.le_refl 0, Int.le_refl 0⟩
  | cons n _ ih =>
      rw [sum_filter_cons, sum_filter_cons]
      simp only [decide_eq_true_eq]
      split <;> split <;> omega
  | cons_cons n _ ih =>
      rw [sum_filter_cons, sum_filter_cons, List.sum_cons]
      simp only [decide_eq_true_eq]
      split <;> split <;> omega

theorem sum_nonpos {ints : List Int} (h : forall n, n ∈ ints -> n ≤ 0) : ints.sum ≤ 0 := by
  have hsum := List.sum_le_card_nsmul ints 0 h
  rwa [nsmul_zero] at hsum

/-- From a total of 64 bits to another one there is always an integer that can be next. -/
theorem exists_next {start : Int} {ints : List Int} (hne : ints ≠ [])
    (hall : forall n, n ∈ ints -> Fits n) (hstart : Fits start) (hsum : Fits (start + ints.sum)) :
    exists n, n ∈ ints ∧ Fits (start + n) := by
  rcases List.exists_cons_of_ne_nil hne with ⟨first, rest, rfl⟩
  have hfirst : first ∈ first :: rest := List.mem_cons_self
  rw [List.sum_cons] at hsum
  rcases Int.le_total 0 start with hstartPos | hstartNeg
  · -- an integer that is not positive leads back to zero; if there is none, totals only grow
    by_cases hdown : exists n, n ∈ first :: rest ∧ n ≤ 0
    · rcases hdown with ⟨n, hmem, hn⟩
      exact ⟨n, hmem, (hall n hmem).of_between hstart (by omega) (by omega)⟩
    · have hpos : forall n, n ∈ first :: rest -> 0 < n := by
        intro n hmem
        by_contra hn
        exact hdown ⟨n, hmem, Int.not_lt.1 hn⟩
      have hnext := hpos first hfirst
      have hgrows : 0 ≤ rest.sum :=
        List.sum_nonneg fun n hmem => (hpos n (List.mem_cons_of_mem first hmem)).le
      exact ⟨first, hfirst, hstart.of_between hsum (by omega) (by omega)⟩
  · by_cases hup : exists n, n ∈ first :: rest ∧ 0 ≤ n
    · rcases hup with ⟨n, hmem, hn⟩
      exact ⟨n, hmem, hstart.of_between (hall n hmem) (by omega) (by omega)⟩
    · have hneg : forall n, n ∈ first :: rest -> n < 0 := by
        intro n hmem
        by_contra hn
        exact hup ⟨n, hmem, Int.not_lt.1 hn⟩
      have hnext := hneg first hfirst
      have hshrinks : rest.sum ≤ 0 :=
        sum_nonpos fun n hmem => (hneg n (List.mem_cons_of_mem first hmem)).le
      exact ⟨first, hfirst, hsum.of_between hstart (by omega) (by omega)⟩

/-- Members whose sum has 64 bits can be put in an order in which every total has. -/
theorem exists_order (members : List Value) {start : Int} (hstart : Fits start)
    (hsum : Fits (start + (integers members).sum)) :
    exists order : List Value, order.Perm members ∧ StaysInBounds start (integers order) := by
  induction hlength : members.length generalizing members start with
  | zero =>
      rw [List.length_eq_zero_iff.1 hlength]
      exact ⟨[], List.Perm.refl [], staysInBounds_nil.2 hstart⟩
  | succ length ih =>
      by_cases hnil : integers members = []
      · refine ⟨members, List.Perm.refl members, ?_⟩
        rw [hnil]
        exact staysInBounds_nil.2 hstart
      · rcases exists_next hnil (fun n hmem => fits_of_mem_integers hmem) hstart hsum with
          ⟨n, hmem, hnext⟩
        rcases List.mem_filterMap.1 hmem with ⟨member, hmember, hinteger⟩
        rcases List.append_of_mem hmember with ⟨front, back, rfl⟩
        have hperm : (front ++ member :: back).Perm (member :: (front ++ back)) :=
          List.perm_middle
        have htotal : start + (integers (front ++ member :: back)).sum =
            start + n + (integers (front ++ back)).sum := by
          rw [(integers_perm hperm).sum_eq, integers_cons_of_some _ hinteger, List.sum_cons,
            Int.add_assoc]
        rw [htotal] at hsum
        have hshorter : (front ++ back).length = length := by
          have hlengths := hperm.length_eq
          rw [hlength, List.length_cons] at hlengths
          exact (Nat.succ.inj hlengths).symm
        rcases ih (front ++ back) hnext hsum hshorter with ⟨order, horder, hbounds⟩
        refine ⟨member :: order, (horder.cons member).trans hperm.symm, ?_⟩
        rw [integers_cons_of_some order hinteger, staysInBounds_cons]
        exact ⟨hstart, hbounds⟩

def broughtForward (first : Value -> Bool) (members : List Value) : List Value :=
  members.filter first ++ members.filter fun member => !first member

theorem broughtForward_perm (first : Value -> Bool) (members : List Value) :
    (broughtForward first members).Perm members :=
  List.filter_append_perm first members

theorem integers_filter (test : Int -> Bool) (members : List Value) :
    integers (members.filter fun member => member.integer?.any test) =
      (integers members).filter test := by
  induction members with
  | nil => rfl
  | cons member members ih =>
      rw [List.filter_cons]
      cases hinteger : member.integer? with
      | none =>
          rw [integers_cons_of_none members hinteger]
          exact ih
      | some n =>
          rw [integers_cons_of_some members hinteger, List.filter_cons, Option.any_some]
          split
          · rw [integers_cons_of_some _ hinteger, ih]
          · exact ih

theorem fits_of_every_order {members : List Value}
    (h : forall order : List Value, order.Perm members -> StaysInBounds 0 (integers order))
    (test : Int -> Bool) : Fits ((integers members).filter test).sum := by
  have hbounds := h _ (broughtForward_perm (fun member => member.integer?.any test) members)
  rw [broughtForward, integers_append, integers_filter] at hbounds
  have hfits := hbounds _ (List.prefix_append _ _)
  rwa [Int.zero_add] at hfits

theorem staysInBounds_every_order_iff (members : List Value) :
    (forall order : List Value, order.Perm members -> StaysInBounds 0 (integers order)) ↔
      Fits ((integers members).filter (0 < ·)).sum ∧
        Fits ((integers members).filter (· < 0)).sum := by
  constructor
  · intro h
    exact ⟨fits_of_every_order h _, fits_of_every_order h _⟩
  · rintro ⟨hpos, hneg⟩ order horder front hfront
    have hsame := integers_perm horder
    have hbetween := sum_between hfront.sublist
    rw [(hsame.filter _).sum_eq, (hsame.filter _).sum_eq] at hbetween
    rw [Int.zero_add]
    exact hneg.of_between hpos hbetween.1 hbetween.2

end Value

namespace Expression

open Value

/-! ## One member after another -/

namespace Total

theorem whole_add_of_none {total : Total} (h : total.whole = Option.none) (member : Value) :
    (total.add member).whole = Option.none := by
  cases member with
  | int n =>
      rw [add, h]
      rfl
  | float f => rfl
  | _ => exact h

theorem whole_add_of_integer {total : Total} {start : Int64} {member : Value} {n : Int}
    (hstart : total.whole = some start) (h : member.integer? = some n) :
    (total.add member).whole = int64? (start.toInt + n) := by
  cases member with
  | int k =>
      cases h
      rw [add, hstart]
      rfl
  | _ => cases h

theorem add_of_not_number {member : Value} (hinteger : member.integer? = Option.none)
    (hfloat : member.isFloat = false) (total : Total) : total.add member = total := by
  cases member with
  | int k => cases hinteger
  | float f => cases hfloat
  | _ => rfl

theorem whole_foldl_of_none {total : Total} (h : total.whole = Option.none)
    (members : List Value) : (members.foldl add total).whole = Option.none := by
  induction members generalizing total with
  | nil => exact h
  | cons member members ih => exact ih (whole_add_of_none h member)

/-- The integer sum of members is exact, and is kept as long as no total leaves the 64 bits. -/
theorem whole_foldl_eq_some_iff {total : Total} {start : Int64} (hstart : total.whole = some start)
    {members : List Value} (hwhole : forall member, member ∈ members -> member.isFloat = false)
    (n : Int64) :
    (members.foldl add total).whole = some n ↔
      StaysInBounds start.toInt (integers members) ∧
        n.toInt = start.toInt + (integers members).sum := by
  induction members generalizing total start with
  | nil =>
      show total.whole = some n ↔ StaysInBounds start.toInt [] ∧ n.toInt = start.toInt + 0
      rw [hstart, staysInBounds_nil, Option.some.injEq, Int.add_zero, Int64.toInt_inj, eq_comm]
      exact (and_iff_right (fits_toInt start)).symm
  | cons member members ih =>
      have hrest : forall member, member ∈ members -> member.isFloat = false :=
        fun other hmem => hwhole other (List.mem_cons_of_mem member hmem)
      rw [List.foldl_cons]
      cases hinteger : member.integer? with
      | none =>
          have hfloat := hwhole member List.mem_cons_self
          rw [add_of_not_number hinteger hfloat, integers_cons_of_none members hinteger]
          exact ih hstart hrest
      | some k =>
          have hadd := whole_add_of_integer hstart hinteger
          rw [integers_cons_of_some members hinteger, staysInBounds_cons, List.sum_cons,
            ← Int.add_assoc, and_iff_right (fits_toInt start)]
          by_cases hfits : Fits (start.toInt + k)
          · rw [int64?_of_fits hfits] at hadd
            rw [ih hadd hrest, toInt_ofInt_of_fits hfits]
          · rw [int64?_of_not_fits hfits] at hadd
            rw [whole_foldl_of_none hadd members]
            constructor
            · intro hsome
              cases hsome
            · intro h
              exact absurd h.1.fits_start hfits

theorem float_foldl (members : List Value) (total : Total) :
    (members.foldl add total).float = (members.filterMap number?).foldl (· + ·) total.float := by
  induction members generalizing total with
  | nil => rfl
  | cons member members ih =>
      rw [List.foldl_cons, ih]
      cases member <;> rfl

end Total

/-! ## The sum of a value -/

/-- The sum of the value is an integer, and this one. -/
def SumsTo (value : Value) (n : Int) : Prop :=
  exists k : Int64, k.toInt = n ∧ evaluate sum value = .int k

section Members

variable {value : Value} {members : List Value}

theorem evaluate_sum (hmembers : members? value = some members) :
    evaluate sum value = (members.foldl Total.add Total.zero).value := by
  unfold evaluate
  dsimp only
  rw [hmembers]
  rfl

theorem whole_run_iff (hwhole : forall member, member ∈ members -> member.isFloat = false)
    (n : Int64) :
    (members.foldl Total.add Total.zero).whole = some n ↔
      StaysInBounds 0 (integers members) ∧ n.toInt = (integers members).sum := by
  have hstart : Total.zero.whole = some 0 := rfl
  have hrun := Total.whole_foldl_eq_some_iff hstart hwhole n
  rwa [show (0 : Int64).toInt = 0 from rfl, Int.zero_add] at hrun

theorem evaluate_of_not_staysInBounds (hmembers : members? value = some members)
    (hwhole : forall member, member ∈ members -> member.isFloat = false)
    (h : ¬ StaysInBounds 0 (integers members)) :
    evaluate sum value = .float ((members.filterMap number?).foldl (· + ·) 0) := by
  have hrun : (members.foldl Total.add Total.zero).whole = Option.none := by
    cases hsome : (members.foldl Total.add Total.zero).whole with
    | none => rfl
    | some n => exact absurd ((whole_run_iff hwhole n).1 hsome).1 h
  rw [evaluate_sum hmembers, Total.value, hrun, Total.float_foldl]
  rfl

theorem sumsTo_iff (hmembers : members? value = some members)
    (hwhole : forall member, member ∈ members -> member.isFloat = false) :
    SumsTo value (integers members).sum ↔ StaysInBounds 0 (integers members) := by
  constructor
  · rintro ⟨k, _, hsum⟩
    by_contra hbounds
    rw [evaluate_of_not_staysInBounds hmembers hwhole hbounds] at hsum
    cases hsum
  · intro h
    have hfits := h.fits_sum
    rw [Int.zero_add] at hfits
    have hsum := toInt_ofInt_of_fits hfits
    refine ⟨_, hsum, ?_⟩
    rw [evaluate_sum hmembers, Total.value, (whole_run_iff hwhole _).2 ⟨h, hsum⟩]

theorem sumsTo_order_iff {order : List Value} (horder : order.Perm members)
    (hwhole : forall member, member ∈ members -> member.isFloat = false) :
    SumsTo (.array order) (integers members).sum ↔ StaysInBounds 0 (integers order) := by
  rw [← (integers_perm horder).sum_eq]
  exact sumsTo_iff rfl fun member hmem => hwhole member (horder.mem_iff.1 hmem)

/--
The sum of integers, and of what is no number, is exact as long as no total on the way leaves the
64 bits, and a float otherwise; no total that is kept is anything but the exact one.  So a sum
beyond the 64 bits is a float in every order of the members, one within them is exact in some
order, and in all orders just if the positive integers and the negative ones have such sums.
-/
theorem sum_of_integers (hmembers : members? value = some members)
    (hwhole : forall member, member ∈ members -> member.isFloat = false) :
    (SumsTo value (integers members).sum ↔ StaysInBounds 0 (integers members)) ∧
    (¬ StaysInBounds 0 (integers members) ->
      evaluate sum value = .float ((members.filterMap number?).foldl (· + ·) 0)) ∧
    (¬ Fits (integers members).sum -> forall order : List Value, order.Perm members ->
      exists f, evaluate sum (.array order) = .float f) ∧
    (Fits (integers members).sum -> exists order : List Value, order.Perm members ∧
      SumsTo (.array order) (integers members).sum) ∧
    ((forall order : List Value, order.Perm members ->
        SumsTo (.array order) (integers members).sum) ↔
      Fits ((integers members).filter (0 < ·)).sum ∧
        Fits ((integers members).filter (· < 0)).sum) ∧
    (forall front back n, members = front ++ back ->
      (front.foldl Total.add Total.zero).whole = some n -> n.toInt = (integers front).sum) := by
  refine ⟨sumsTo_iff hmembers hwhole, evaluate_of_not_staysInBounds hmembers hwhole,
    ?_, ?_, ?_, ?_⟩
  · intro hfits order horder
    refine ⟨_, evaluate_of_not_staysInBounds rfl
      (fun member hmem => hwhole member (horder.mem_iff.1 hmem)) ?_⟩
    intro hbounds
    have hsum := hbounds.fits_sum
    rw [Int.zero_add, (integers_perm horder).sum_eq] at hsum
    exact hfits hsum
  · intro hfits
    rw [← Int.zero_add (integers members).sum] at hfits
    rcases exists_order members (by decide) hfits with ⟨order, horder, hbounds⟩
    exact ⟨order, horder, (sumsTo_order_iff horder hwhole).2 hbounds⟩
  · rw [← staysInBounds_every_order_iff]
    exact forall_congr' fun order => forall_congr' fun horder => sumsTo_order_iff horder hwhole
  · intro front back n hsplit hrun
    apply ((whole_run_iff _ n).1 hrun).2
    intro member hmem
    apply hwhole
    rw [hsplit]
    exact List.mem_append_left back hmem

end Members

def overrun : List Value :=
  [.int 9223372036854775807, .text "7", .int 1, .int (-1)]

theorem sum_of_overrun :
    let value : Value := .object [("a", .int 9223372036854775807), ("b", .text "7"),
      ("c", .int 1), ("d", .int (-1))]
    members? value = some overrun ∧ (forall member, member ∈ overrun -> member.isFloat = false) ∧
      Fits (integers overrun).sum ∧
      (exists order : List Value, order.Perm overrun ∧
        SumsTo (.array order) 9223372036854775807) ∧
      ¬ forall order : List Value, order.Perm overrun ->
        SumsTo (.array order) 9223372036854775807 := by
  intro value
  have hmembers : members? value = some overrun := rfl
  have hwhole : forall member, member ∈ overrun -> member.isFloat = false := by
    simp [overrun, isFloat]
  have hfits : Fits (integers overrun).sum := by decide
  rcases sum_of_integers hmembers hwhole with ⟨_, _, _, hsome, hall, _⟩
  refine ⟨hmembers, hwhole, hfits, hsome hfits, ?_⟩
  intro h
  exact absurd (hall.1 h).1 (by decide)

/-- One and one taken away again make a float of the largest integer, in this order. -/
theorem sum_not_exact :
    let early : Value := .array [.int 9223372036854775807, .int 1, .int (-1)]
    let late : Value := .array [.int 9223372036854775807, .int (-1), .int 1]
    Fits (9223372036854775807 + (1 + -1)) ∧ ¬ SumsTo early (9223372036854775807 + (1 + -1)) ∧
      (exists f, evaluate sum early = .float f) ∧
      SumsTo late (9223372036854775807 + (-1 + 1)) := by
  intro early late
  have hfloat : exists f, evaluate sum early = .float f := ⟨_, rfl⟩
  refine ⟨by decide, ?_, hfloat, ⟨9223372036854775807, rfl, rfl⟩⟩
  rintro ⟨k, _, hk⟩
  rcases hfloat with ⟨f, hf⟩
  rw [hf] at hk
  cases hk

end Expression
end SurfaceFeed
