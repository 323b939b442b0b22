import SurfaceFeed.Value.Path

/-!
# Paths

## Indices in decimal

The decimal text of a number is the segment that leads to the element of a list
at this index: it has no leading zero, and its digits have the number as value.
It is the only one, since digits without a leading zero are told by their value.

## Reading one segment at a time

Reading along a path reads one child after the other, so that a path can be cut
anywhere.
-/

namespace SurfaceFeed
namespace Value

theorem eq_zero_of_toDigits {n : Nat} {rest : List Char}
    (h : Nat.toDigits 10 n = '0' :: rest) : n = 0 := by
  induction n using Nat.strongRecOn generalizing rest with
  | ind n ih =>
      rw [Nat.toDigits_eq_if (by decide)] at h
      split at h
      · next hsmall =>
          have hhead : Nat.digitChar n = '0' := (List.cons.inj h).1
          have hdigits : forall d : Fin 10, Nat.digitChar d = '0' -> d.val = 0 := by decide
          exact hdigits ⟨n, hsmall⟩ hhead
      · next hlarge =>
          cases hfront : Nat.toDigits 10 (n / 10) with
          | nil => exact absurd hfront Nat.toDigits_ne_nil
          | cons c front =>
              rw [hfront] at h
              have hc : c = '0' := (List.cons.inj h).1
              rw [hc] at hfront
              have hpos : 0 < n := Nat.lt_of_lt_of_le (by decide) (Nat.le_of_not_lt hlarge)
              have hzero := ih (n / 10) (Nat.div_lt_self hpos (by decide)) hfront
              exact absurd ((Nat.div_eq_zero_iff_lt (by decide)).1 hzero) hlarge

theorem decimalValue_toDigits (n : Nat) : decimalValue (Nat.toDigits 10 n) = n := by
  have hread := Nat.ofDigitChars_ten_toDigits (n := n)
  rw [Nat.ofDigitChars_eq_foldl] at hread
  simpa only [decimalValue, Nat.mul_comm] using hread

theorem toList_toString (n : Nat) : (toString n).toList = Nat.toDigits 10 n := by
  rw [Nat.toString_eq_ofList_toDigits, String.toList_ofList]

theorem isDigit_of_mem_toString {n : Nat} {c : Char} (h : c ∈ (toString n).toList) :
    c.isDigit = true := by
  rw [toList_toString] at h
  exact Nat.isDigit_of_mem_toDigits (by decide) (by decide) h

theorem not_mem_toString {n : Nat} {c : Char} (h : c.isDigit = false) :
    c ∉ (toString n).toList := by
  intro hmem
  rw [isDigit_of_mem_toString hmem] at h
  cases h

theorem isDecimalDigit_of_isDigit {c : Char} (h : c.isDigit = true) : isDecimalDigit c = true := by
  simpa [isDecimalDigit, Char.isDigit, Char.le_def] using h

@[simp] theorem indexOf?_toString (n : Nat) : indexOf? (toString n) = some n := by
  have hdigits : (toString n).toList.all isDecimalDigit = true := by
    rw [List.all_eq_true]
    intro c hc
    exact isDecimalDigit_of_isDigit (isDigit_of_mem_toString hc)
  have hvalue := decimalValue_toDigits n
  rw [toList_toString] at hdigits
  rw [indexOf?, toList_toString]
  split
  · next h => exact absurd h Nat.toDigits_ne_nil
  · next h => rw [eq_zero_of_toDigits h]
  · next hlong h =>
      rw [eq_zero_of_toDigits h] at h
      exact absurd (List.cons.inj h).2.symm hlong
  · rw [if_pos hdigits, hvalue]

theorem digitChar_of_isDecimalDigit {c : Char} (h : isDecimalDigit c = true) :
    c.toNat - '0'.toNat < 10 ∧ Nat.digitChar (c.toNat - '0'.toNat) = c := by
  have hrange : '0' ≤ c ∧ c ≤ '9' := by
    rw [isDecimalDigit, Bool.and_eq_true] at h
    exact ⟨of_decide_eq_true h.1, of_decide_eq_true h.2⟩
  have hlow : 48 ≤ c.toNat := hrange.1
  have hhigh : c.toNat ≤ 57 := hrange.2
  have hdigits : forall d : Fin 10, Nat.digitChar d = Char.ofNat (48 + d) := by decide
  have hsmall : c.toNat - 48 < 10 := by omega
  have hback : 48 + (c.toNat - 48) = c.toNat := by omega
  have hdigit := hdigits ⟨c.toNat - 48, hsmall⟩
  refine ⟨hsmall, ?_⟩
  show Nat.digitChar (c.toNat - 48) = c
  rw [hdigit, hback, Char.ofNat_toNat]

theorem toDigits_foldl {digits : List Char}
    (hall : forall c, c ∈ digits -> isDecimalDigit c = true) {n : Nat} (hpos : 0 < n) :
    Nat.toDigits 10 (digits.foldl (fun n c => n * 10 + (c.toNat - '0'.toNat)) n) =
      Nat.toDigits 10 n ++ digits := by
  induction digits generalizing n with
  | nil => rw [List.foldl_nil, List.append_nil]
  | cons c digits ih =>
      rcases digitChar_of_isDecimalDigit (hall c List.mem_cons_self) with ⟨hsmall, hdigit⟩
      have hnext : 0 < 10 * n + (c.toNat - '0'.toNat) := by omega
      have hdigits := ih (fun d hd => hall d (List.mem_cons_of_mem c hd)) hnext
      rw [List.foldl_cons, Nat.mul_comm n, hdigits,
        ← Nat.toDigits_append_toDigits (by decide) hpos hsmall,
        Nat.toDigits_of_lt_base hsmall, hdigit, List.append_assoc, List.singleton_append]

/-- Digits without a leading zero are the decimal text of their value. -/
theorem toDigits_decimalValue {c : Char} {digits : List Char}
    (hall : forall d, d ∈ c :: digits -> isDecimalDigit d = true) (hzero : c ≠ '0') :
    Nat.toDigits 10 (decimalValue (c :: digits)) = c :: digits := by
  rcases digitChar_of_isDecimalDigit (hall c List.mem_cons_self) with ⟨hsmall, hdigit⟩
  have hpos : 0 < c.toNat - '0'.toNat := by
    apply Nat.pos_of_ne_zero
    intro hvalue
    rw [hvalue] at hdigit
    exact hzero hdigit.symm
  have hrest := toDigits_foldl (fun d hd => hall d (List.mem_cons_of_mem c hd)) hpos
  rw [decimalValue, List.foldl_cons, Nat.zero_mul, Nat.zero_add, hrest,
    Nat.toDigits_of_lt_base hsmall, hdigit, List.singleton_append]

theorem indexOf?_eq_some_iff {segment : String} {index : Nat} :
    indexOf? segment = some index ↔ segment = toString index := by
  constructor
  · intro h
    apply String.toList_injective
    rw [toList_toString]
    rw [indexOf?] at h
    split at h
    · cases h
    · next hchars =>
        cases h
        exact hchars
    · cases h
    · next hempty _ hzero =>
        split at h
        · next hall =>
            cases h
            cases hchars : segment.toList with
            | nil => exact absurd hchars hempty
            | cons c digits =>
                rw [hchars] at hall hzero
                have hhead : c ≠ '0' := by
                  intro hc
                  exact hzero digits (by rw [hc])
                exact (toDigits_decimalValue (List.all_eq_true.1 hall) hhead).symm
        · cases h
  · intro h
    rw [h, indexOf?_toString]

theorem toString_inj {m n : Nat} : toString m = toString n ↔ m = n := by
  rw [← indexOf?_eq_some_iff, indexOf?_toString, Option.some_inj]

@[simp] theorem indexOf?_dash : indexOf? "-" = none := by
  decide

/-! ## Reading -/

def child? : Value -> String -> Option Value
  | object fields, segment => Fields.find? fields segment
  | array items, segment => (indexOf? segment).bind fun index => items[index]?
  | _, _ => none

@[simp] theorem getAt_nil (value : Value) : value.getAt [] = some value := by
  cases value <;> rfl

theorem getAt_cons (value : Value) (segment : String) (rest : List String) :
    value.getAt (segment :: rest) = (value.child? segment).bind fun child => child.getAt rest := by
  cases value with
  | null | bool | int | float | text => rfl
  | array items =>
      rw [getAt, child?]
      cases (indexOf? segment).bind fun index => items[index]? <;> rfl
  | object fields =>
      rw [getAt, child?]
      cases Fields.find? fields segment <;> rfl

theorem getAt_append (value : Value) (front rest : List String) :
    value.getAt (front ++ rest) = (value.getAt front).bind fun child => child.getAt rest := by
  induction front generalizing value with
  | nil =>
      rw [getAt_nil]
      rfl
  | cons segment front ih =>
      rw [List.cons_append, getAt_cons, getAt_cons]
      cases value.child? segment with
      | none => rfl
      | some child => exact ih child

theorem getAt_append_of_some {value child : Value} {front : List String}
    (h : value.getAt front = some child) (rest : List String) :
    value.getAt (front ++ rest) = child.getAt rest := by
  rw [getAt_append, h]
  rfl

@[simp] theorem child?_array_toString (items : List Value) (index : Nat) :
    (array items).child? (toString index) = items[index]? := by
  rw [child?, indexOf?_toString]
  rfl

/-! ## Paths that part

Of two paths neither of which goes on where the other ends, each has a segment
behind what they have in common.
-/

/-- The two paths part behind `front`, one to `a` and the other to `b`. -/
def Part (front : List String) (a b : String) (path other : List String) : Prop :=
  a ≠ b ∧ front ++ [a] <+: path ∧ front ++ [b] <+: other

theorem exists_part {path other : List String} (hpath : ¬ path <+: other)
    (hother : ¬ other <+: path) : exists front a b, Part front a b path other := by
  induction path generalizing other with
  | nil => exact absurd List.nil_prefix hpath
  | cons a path ih =>
      cases other with
      | nil => exact absurd List.nil_prefix hother
      | cons b other =>
          by_cases hab : a = b
          · subst hab
            rw [List.cons_prefix_cons] at hpath hother
            have hrest := ih (fun h => hpath ⟨rfl, h⟩) (fun h => hother ⟨rfl, h⟩)
            rcases hrest with ⟨front, c, d, hcd, hc, hd⟩
            refine ⟨a :: front, c, d, hcd, ?_, ?_⟩
            · exact List.cons_prefix_cons.2 ⟨rfl, hc⟩
            · exact List.cons_prefix_cons.2 ⟨rfl, hd⟩
          · refine ⟨[], a, b, hab, ?_, ?_⟩
            · exact List.cons_prefix_cons.2 ⟨rfl, List.nil_prefix⟩
            · exact List.cons_prefix_cons.2 ⟨rfl, List.nil_prefix⟩

/-! ## Indices of any size

Every number has a decimal text, and no bound is set to an index here.  A reader
that refuses what is too large for its machine reads and writes the same
elements, as long as no list comes near its bound.
-/

theorem child?_of_bounded {items : List Value} {bound : Nat} (h : items.length ≤ bound)
    (segment : String) :
    (((indexOf? segment).filter fun index => index < bound).bind fun index => items[index]?) =
      (array items).child? segment := by
  rw [child?]
  cases indexOf? segment with
  | none => rfl
  | some index =>
      by_cases hindex : index < bound
      · rw [Option.filter_some, if_pos (decide_eq_true hindex)]
      · have hbeyond : items[index]? = none :=
          List.getElem?_eq_none (Nat.le_trans h (Nat.le_of_not_lt hindex))
        rw [Option.filter_some, if_neg (mt of_decide_eq_true hindex)]
        exact hbeyond.symm

theorem writeIndex?_of_bounded {length bound : Nat} (h : length + largestGap < bound)
    (segment : String) :
    (if segment = "-" then some length
      else ((indexOf? segment).filter fun index => index < bound).filter fun index =>
        index ≤ length + largestGap) = writeIndex? segment length := by
  rw [writeIndex?, Option.filter_filter]
  congr 2
  funext index
  rw [Bool.and_eq_right_iff_imp]
  intro hnear
  exact decide_eq_true (Nat.lt_of_le_of_lt (of_decide_eq_true hnear) h)

end Value
end SurfaceFeed
