import SurfaceFeed.Json.Number

/-!
# Numbers in front of other text

A number ends where a byte follows that no number has.  What stands from there
on plays no part in how the number is read.
-/

namespace SurfaceFeed
namespace Json
namespace Number

def isNumeric (b : UInt8) : Bool :=
  isDigit b || b == 0x2e || isExponentLetter b || b == 0x2b || b == 0x2d

/-- A text that no number reaches into. -/
def Stops (rest : Bytes) : Prop :=
  forall b tail, rest = b :: tail -> isNumeric b = false

theorem stops_nil : Stops [] := by
  intro b tail h
  cases h

theorem stops_cons {b : UInt8} (tail : Bytes) (h : isNumeric b = false) : Stops (b :: tail) := by
  intro b' tail' heq
  cases heq
  exact h

theorem Stops.isDigit {b : UInt8} {tail : Bytes} (h : Stops (b :: tail)) :
    isDigit b = false := by
  have hb := h b tail rfl
  simp only [isNumeric, Bool.or_eq_false_iff] at hb
  exact hb.1.1.1.1

theorem Stops.isExponentLetter {b : UInt8} {tail : Bytes} (h : Stops (b :: tail)) :
    isExponentLetter b = false := by
  have hb := h b tail rfl
  simp only [isNumeric, Bool.or_eq_false_iff] at hb
  exact hb.1.1.2

theorem Stops.not_point {b : UInt8} {tail : Bytes} (h : Stops (b :: tail)) :
    (b == 0x2e) = false := by
  have hb := h b tail rfl
  simp only [isNumeric, Bool.or_eq_false_iff] at hb
  exact hb.1.1.1.2

theorem Stops.not_sign {b : UInt8} {tail : Bytes} (h : Stops (b :: tail)) :
    (b == 0x2b) = false ∧ (b == 0x2d) = false := by
  have hb := h b tail rfl
  simp only [isNumeric, Bool.or_eq_false_iff] at hb
  exact ⟨hb.1.2, hb.2⟩

/-! ## Reading with and without the rest -/

/-- The second reading succeeds just where the first does, and leaves `rest` in addition. -/
def Extends (rest : Bytes) (short long : Except (Stop Fault) (Json × Bytes)) : Prop :=
  forall v s, long = .ok (v, s) ↔ exists t, s = t ++ rest ∧ short = .ok (v, t)

theorem extends_error (rest : Bytes) (e e' : Stop Fault) :
    Extends rest (.error e) (.error e') := by
  intro v s
  simp

theorem extends_ok (rest t : Bytes) (v : Json) :
    Extends rest (.ok (v, t)) (.ok (v, t ++ rest)) := by
  intro v' s
  constructor
  · intro h
    cases h
    exact ⟨t, rfl, rfl⟩
  · rintro ⟨t', rfl, h⟩
    cases h
    rfl

section Rest

variable {rest : Bytes} (hrest : Stops rest)

include hrest

theorem takeWhile_isDigit_append (s : Bytes) :
    (s ++ rest).takeWhile isDigit = s.takeWhile isDigit := by
  induction s with
  | nil =>
      cases rest with
      | nil => rfl
      | cons b tail => simp [hrest.isDigit]
  | cons b s ih =>
      cases hb : isDigit b <;> simp [hb, ih]

theorem dropWhile_isDigit_append (s : Bytes) :
    (s ++ rest).dropWhile isDigit = s.dropWhile isDigit ++ rest := by
  induction s with
  | nil =>
      cases rest with
      | nil => rfl
      | cons b tail => simp [hrest.isDigit]
  | cons b s ih =>
      cases hb : isDigit b <;> simp [hb, ih]

omit hrest in
theorem extends_float (negative : Bool) (significand : Nat) (e : Int) (s : Bytes) :
    Extends rest (float negative significand e s)
      (float negative significand e (s ++ rest)) := by
  rw [float, float]
  cases scale? significand e with
  | none => exact extends_error rest _ _
  | some f => exact extends_ok rest s _

theorem exponentDigits_append (n : Nat) (s : Bytes) :
    exponentDigits n (s ++ rest) =
      ((exponentDigits n s).1, (exponentDigits n s).2 ++ rest) := by
  induction s generalizing n with
  | nil =>
      cases rest with
      | nil => rfl
      | cons b tail => simp [exponentDigits, hrest.isDigit]
  | cons b s ih =>
      simp only [List.cons_append, exponentDigits]
      cases isDigit b with
      | false => simp
      | true =>
          by_cases hnext : n * 10 + digitValue b ≤ largestExponent
          · simp [hnext, ih]
          · simp [hnext]

theorem exponentSign_append (s : Bytes) :
    exponentSign (s ++ rest) = ((exponentSign s).1, (exponentSign s).2 ++ rest) := by
  cases s with
  | nil =>
      cases rest with
      | nil => rfl
      | cons b tail => simp [exponentSign, hrest.not_sign]
  | cons b s =>
      simp only [List.cons_append, exponentSign]
      by_cases hplus : b == 0x2b
      · simp [hplus]
      · by_cases hminus : b == 0x2d <;> simp [hplus, hminus]

theorem extends_exponent (negative : Bool) (significand : Nat) (offset : Int) (s : Bytes) :
    Extends rest (exponent negative significand offset s)
      (exponent negative significand offset (s ++ rest)) := by
  simp only [exponent, exponentSign_append hrest]
  cases (exponentSign s).2 with
  | nil =>
      cases rest with
      | nil => exact extends_error [] _ _
      | cons b tail =>
          simp only [List.nil_append, hrest.isDigit]
          exact extends_error _ _ _
  | cons b s =>
      simp only [List.cons_append, exponentDigits_append hrest]
      cases isDigit b with
      | false => exact extends_error rest _ _
      | true =>
          rcases exponentDigits (digitValue b) s with ⟨_ | n, left⟩
          · simp only [if_true]
            split
            · exact extends_error rest _ _
            · rw [dropWhile_isDigit_append hrest]
              exact extends_float _ _ _ _
          · exact extends_float _ _ _ _

theorem extends_afterFraction (negative : Bool) (significand : Nat) (offset : Int)
    (s : Bytes) :
    Extends rest (afterFraction negative significand offset s)
      (afterFraction negative significand offset (s ++ rest)) := by
  cases s with
  | nil =>
      cases rest with
      | nil => exact extends_float _ _ _ _
      | cons b tail =>
          simp only [afterFraction, List.nil_append, hrest.isExponentLetter]
          exact extends_float _ _ _ _
  | cons b s =>
      simp only [afterFraction, List.cons_append]
      cases isExponentLetter b with
      | false => exact extends_float _ _ _ (b :: s)
      | true => exact extends_exponent hrest _ _ _ _

theorem extends_fraction (negative : Bool) (significand extra : Nat) (s : Bytes) :
    Extends rest (fraction negative significand extra s)
      (fraction negative significand extra (s ++ rest)) := by
  simp only [fraction, takeWhile_isDigit_append hrest, dropWhile_isDigit_append hrest]
  cases htake : s.takeWhile isDigit with
  | nil =>
      cases s.dropWhile isDigit ++ rest <;> cases s.dropWhile isDigit <;>
        exact extends_error rest _ _
  | cons b digits => exact extends_afterFraction hrest _ _ _ _

omit hrest in
theorem extends_whole (negative : Bool) (significand extra : Nat) (s : Bytes) :
    Extends rest (whole negative significand extra s)
      (whole negative significand extra (s ++ rest)) := by
  simp only [whole]
  split
  · exact extends_ok rest s _
  · split
    · exact extends_ok rest s _
    · exact extends_float _ _ _ _

theorem extends_afterWhole (negative : Bool) (significand extra : Nat) (s : Bytes) :
    Extends rest (afterWhole negative significand extra s)
      (afterWhole negative significand extra (s ++ rest)) := by
  cases s with
  | nil =>
      cases rest with
      | nil => exact extends_whole _ _ _ _
      | cons b tail =>
          simp only [afterWhole, List.nil_append, hrest.isExponentLetter, hrest.not_point]
          exact extends_whole _ _ _ []
  | cons b s =>
      simp only [afterWhole, List.cons_append]
      cases b == 0x2e with
      | true => exact extends_fraction hrest _ _ _ _
      | false =>
          cases isExponentLetter b with
          | true => exact extends_exponent hrest _ _ _ _
          | false => exact extends_whole _ _ _ (b :: s)

/-- A number is read alike whatever follows it. -/
theorem extends_read (negative : Bool) (s : Bytes) :
    Extends rest (read negative s) (read negative (s ++ rest)) := by
  cases s with
  | nil =>
      cases rest with
      | nil => exact extends_error [] _ _
      | cons b tail =>
          have hzero : (b == 0x30) = false := by
            cases hb : b == 0x30 with
            | false => rfl
            | true =>
                have hdigit := hrest.isDigit
                rw [eq_of_beq hb] at hdigit
                cases hdigit
          simp only [read, List.nil_append, hzero, hrest.isDigit]
          exact extends_error _ _ _
  | cons b s =>
      simp only [read, List.cons_append, takeWhile_isDigit_append hrest,
        dropWhile_isDigit_append hrest]
      cases b == 0x30 with
      | true =>
          cases (s.takeWhile isDigit).isEmpty with
          | true => exact extends_afterWhole hrest _ _ _ _
          | false => exact extends_error rest _ _
      | false =>
          cases isDigit b with
          | true => exact extends_afterWhole hrest _ _ _ _
          | false => exact extends_error rest _ _

end Rest

/-! ## What a reading takes and leaves -/

def isNumber : Json -> Bool
  | .int _ | .float _ => true
  | _ => false

/-- A reading that succeeds takes a number and leaves an end of the text `s`. -/
def TakesNumber (s : Bytes) (read : Except (Stop Fault) (Json × Bytes)) : Prop :=
  forall v t, read = .ok (v, t) -> isNumber v = true ∧ t <:+ s

theorem TakesNumber.mono {s s' : Bytes} {r : Except (Stop Fault) (Json × Bytes)}
    (h : TakesNumber s r) (hs : s <:+ s') : TakesNumber s' r :=
  fun v t hok => ⟨(h v t hok).1, (h v t hok).2.trans hs⟩

theorem takesNumber_error (s : Bytes) (e : Stop Fault) : TakesNumber s (.error e) := by
  intro v t h
  cases h

theorem takesNumber_float (negative : Bool) (significand : Nat) (e : Int) (s : Bytes) :
    TakesNumber s (float negative significand e s) := by
  intro v t h
  rw [float] at h
  split at h
  · cases h
    exact ⟨rfl, List.suffix_refl _⟩
  · cases h

theorem exponentDigits_suffix (n : Nat) (s : Bytes) : (exponentDigits n s).2 <:+ s := by
  induction s generalizing n with
  | nil => exact List.suffix_refl _
  | cons b s ih =>
      rw [exponentDigits]
      split
      · dsimp only
        split
        · exact (ih _).trans (List.suffix_cons b s)
        · exact List.suffix_cons b s
      · exact List.suffix_refl _

theorem exponentSign_suffix (s : Bytes) : (exponentSign s).2 <:+ s := by
  cases s with
  | nil => exact List.suffix_refl _
  | cons b s =>
      rw [exponentSign]
      split
      · exact List.suffix_cons b s
      · split
        · exact List.suffix_cons b s
        · exact List.suffix_refl _

theorem takesNumber_exponent (negative : Bool) (significand : Nat) (offset : Int) (s : Bytes) :
    TakesNumber s (exponent negative significand offset s) := by
  refine TakesNumber.mono ?_ (exponentSign_suffix s)
  simp only [exponent]
  cases (exponentSign s).2 with
  | nil => exact takesNumber_error _ _
  | cons b s =>
      have hdigits := exponentDigits_suffix (digitValue b) s
      refine TakesNumber.mono ?_ (List.suffix_cons b s)
      dsimp only
      split
      · rcases hsplit : exponentDigits (digitValue b) s with ⟨_ | n, left⟩
        · rw [hsplit] at hdigits
          dsimp only
          split
          · exact takesNumber_error _ _
          · exact ((takesNumber_float _ _ _ _).mono (List.dropWhile_suffix _)).mono hdigits
        · rw [hsplit] at hdigits
          exact (takesNumber_float _ _ _ _).mono hdigits
      · exact takesNumber_error _ _

theorem takesNumber_afterFraction (negative : Bool) (significand : Nat) (offset : Int)
    (s : Bytes) : TakesNumber s (afterFraction negative significand offset s) := by
  cases s with
  | nil => exact takesNumber_float _ _ _ _
  | cons b s =>
      rw [afterFraction]
      split
      · exact (takesNumber_exponent _ _ _ _).mono (List.suffix_cons b s)
      · exact takesNumber_float _ _ _ _

theorem takesNumber_fraction (negative : Bool) (significand extra : Nat) (s : Bytes) :
    TakesNumber s (fraction negative significand extra s) := by
  rw [fraction]
  dsimp only
  split
  · exact takesNumber_error _ _
  · exact takesNumber_error _ _
  · exact (takesNumber_afterFraction _ _ _ _).mono (List.dropWhile_suffix _)

theorem takesNumber_whole (negative : Bool) (significand extra : Nat) (s : Bytes) :
    TakesNumber s (whole negative significand extra s) := by
  intro v t h
  rw [whole] at h
  split at h
  · cases h
    exact ⟨rfl, List.suffix_refl _⟩
  · split at h
    · cases h
      exact ⟨rfl, List.suffix_refl _⟩
    · exact takesNumber_float _ _ _ _ v t h

theorem takesNumber_afterWhole (negative : Bool) (significand extra : Nat) (s : Bytes) :
    TakesNumber s (afterWhole negative significand extra s) := by
  cases s with
  | nil => exact takesNumber_whole _ _ _ _
  | cons b s =>
      rw [afterWhole]
      split
      · exact (takesNumber_fraction _ _ _ _).mono (List.suffix_cons b s)
      · split
        · exact (takesNumber_exponent _ _ _ _).mono (List.suffix_cons b s)
        · exact takesNumber_whole _ _ _ _

theorem takesNumber_read (negative : Bool) (s : Bytes) : TakesNumber s (read negative s) := by
  cases s with
  | nil => exact takesNumber_error _ _
  | cons b s =>
      refine TakesNumber.mono ?_ (List.suffix_cons b s)
      rw [read]
      split
      · split
        · exact takesNumber_afterWhole _ _ _ _
        · exact takesNumber_error _ _
      · split
        · exact (takesNumber_afterWhole _ _ _ _).mono (List.dropWhile_suffix _)
        · exact takesNumber_error _ _

/-! ## The text of a number -/

structure Digits (negative : Bool) (s : Bytes) (v : Json) : Prop where
  numeric : forall b, b ∈ s -> isNumeric b = true
  reads : read negative s = .ok (v, [])

theorem Digits.read_append {negative : Bool} {s rest : Bytes} {v : Json}
    (h : Digits negative s v) (hrest : Stops rest) :
    read negative (s ++ rest) = .ok (v, rest) :=
  (extends_read hrest negative s v rest).2 ⟨[], rfl, h.reads⟩

theorem Digits.isNumber {negative : Bool} {s : Bytes} {v : Json} (h : Digits negative s v) :
    isNumber v = true :=
  (takesNumber_read negative s v [] h.reads).1

theorem Digits.isScalar {negative : Bool} {s : Bytes} {v : Json} (h : Digits negative s v) :
    v.isScalar = true := by
  have hnumber := h.isNumber
  cases v with
  | array items => cases hnumber
  | object fields => cases hnumber
  | null => rfl
  | bool b => rfl
  | int n => rfl
  | float f => rfl
  | text s => rfl

/-- A number that was read from the front of a text is what stands before the rest. -/
theorem exists_digits_of_read {negative : Bool} {s rest : Bytes} {v : Json}
    (h : read negative s = .ok (v, rest)) (hrest : Stops rest) :
    exists digits, s = digits ++ rest ∧ Digits negative digits v := by
  have hsplit : s = s.takeWhile isNumeric ++ s.dropWhile isNumeric :=
    List.takeWhile_append_dropWhile.symm
  have hstops : Stops (s.dropWhile isNumeric) := by
    intro b tail hdrop
    have hhead := List.head?_dropWhile_not isNumeric s
    rw [hdrop] at hhead
    simpa using hhead
  have hnumeric : forall b, b ∈ s.takeWhile isNumeric -> isNumeric b = true :=
    List.all_eq_true.1 List.all_takeWhile
  rw [hsplit] at h
  rcases (extends_read hstops negative _ v rest).1 h with ⟨left, hleft, hread⟩
  cases left with
  | nil =>
      rw [List.nil_append] at hleft
      exact ⟨s.takeWhile isNumeric, by rw [hleft]; exact hsplit, hnumeric, hread⟩
  | cons b left =>
      -- a byte that is left over would stand in the number and after it
      have hmem : b ∈ s.takeWhile isNumeric :=
        (takesNumber_read _ _ _ _ hread).2.subset List.mem_cons_self
      have hnot : isNumeric b = false := hrest b _ hleft
      rw [hnumeric b hmem] at hnot
      cases hnot

end Number
end Json
end SurfaceFeed
