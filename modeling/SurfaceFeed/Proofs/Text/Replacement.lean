import SurfaceFeed.Proofs.Text.Occurrence

/-!
# Occurrences that are replaced

## Counting

Replacing puts a value in the place of every occurrence of a pattern.  A text in
which some of them were passed over has the pattern there and the value elsewhere,
and is told from the text with all of them replaced by what can be counted.

The first character of the patterns here does not come again in them.  So
occurrences do not overlap, and what is put before a text makes none in it.
-/

namespace SurfaceFeed
namespace Text

def occurrences (pattern : List Char) : List Char -> Nat
  | [] => 0
  | c :: text => (if startsWith pattern (c :: text) then 1 else 0) + occurrences pattern text

def Headed (pattern : List Char) : Prop :=
  exists p tail, pattern = p :: tail ∧ p ∉ tail

section Pattern

variable {pattern : List Char}

/-! ## Steps of counting and replacing -/

theorem occurrences_of_not_starts {c : Char} {text : List Char} (h : ¬ pattern <+: c :: text) :
    occurrences pattern (c :: text) = occurrences pattern text := by
  rw [occurrences, if_neg (mt startsWith_iff.1 h), Nat.zero_add]

theorem occurrences_of_starts {c : Char} {text : List Char} (h : pattern <+: c :: text) :
    occurrences pattern (c :: text) = occurrences pattern text + 1 := by
  rw [occurrences, if_pos (startsWith_iff.2 h), Nat.add_comm]

theorem replaceAll_of_not_starts {c : Char} {text : List Char} (h : ¬ pattern <+: c :: text)
    (value : List Char) :
    replaceAll pattern value (c :: text) = c :: replaceAll pattern value text := by
  rw [replaceAll, replaceFrom, if_neg (mt startsWith_iff.1 h)]
  rfl

theorem replaceFrom_length (value front text : List Char) :
    replaceFrom pattern value front.length (front ++ text) = replaceAll pattern value text := by
  induction front with
  | nil => rfl
  | cons c front ih => exact ih

theorem replaceAll_append_self (hpattern : pattern ≠ []) (value text : List Char) :
    replaceAll pattern value (pattern ++ text) = value ++ replaceAll pattern value text := by
  cases pattern with
  | nil => exact absurd rfl hpattern
  | cons p pattern =>
      have hstarts : startsWith (p :: pattern) (p :: (pattern ++ text)) = true :=
        startsWith_iff.2 (List.prefix_append _ _)
      rw [replaceAll, List.cons_append, replaceFrom, if_pos hstarts]
      exact congrArg (value ++ ·) (replaceFrom_length value pattern text)

theorem Headed.ne_nil (h : Headed pattern) : pattern ≠ [] := by
  rcases h with ⟨p, tail, rfl, _⟩
  exact List.cons_ne_nil p tail

theorem not_prefix_of_ne {p c : Char} (hc : c ≠ p) (tail text : List Char) :
    ¬ p :: tail <+: c :: text := by
  rw [List.cons_prefix_cons]
  exact fun h => hc h.1.symm

theorem occurrences_append_of_not_mem {p : Char} {tail front : List Char} (h : p ∉ front)
    (text : List Char) :
    occurrences (p :: tail) (front ++ text) = occurrences (p :: tail) text := by
  induction front with
  | nil => rfl
  | cons c front ih =>
      rcases not_or.1 (mt List.mem_cons.2 h) with ⟨hc, hrest⟩
      rw [List.cons_append, occurrences_of_not_starts (not_prefix_of_ne (Ne.symm hc) _ _), ih hrest]

theorem Headed.occurrences_append_self (h : Headed pattern) (text : List Char) :
    occurrences pattern (pattern ++ text) = occurrences pattern text + 1 := by
  rcases h with ⟨p, tail, rfl, htail⟩
  have hstarts : p :: tail <+: p :: (tail ++ text) := List.prefix_append _ _
  rw [List.cons_append, occurrences_of_starts hstarts, occurrences_append_of_not_mem htail]

/-! ## Occurrences that were passed over -/

/-- A text in which all but `n` occurrences of the pattern are replaced. -/
inductive ReplacedBut (pattern value : List Char) : Nat -> List Char -> List Char -> Prop where
  | nil : ReplacedBut pattern value 0 [] []
  | char {n : Nat} {c : Char} {text out : List Char} :
      ¬ pattern <+: c :: text -> ReplacedBut pattern value n text out ->
      ReplacedBut pattern value n (c :: text) (c :: out)
  | put {n : Nat} {text out : List Char} :
      ReplacedBut pattern value n text out ->
      ReplacedBut pattern value n (pattern ++ text) (value ++ out)
  | missed {n : Nat} {text out : List Char} :
      ReplacedBut pattern value n text out ->
      ReplacedBut pattern value (n + 1) (pattern ++ text) (pattern ++ out)

variable {value text out : List Char} {n : Nat}

theorem ReplacedBut.of_cons {p c : Char} {tail : List Char} (hc : c ≠ p)
    (h : ReplacedBut (p :: tail) value n (c :: text) out) :
    exists out', out = c :: out' ∧ ReplacedBut (p :: tail) value n text out' := by
  generalize hwhole : c :: text = whole at h
  cases h with
  | nil => cases hwhole
  | char _ hrest =>
      cases hwhole
      exact ⟨_, rfl, hrest⟩
  | put _ => exact absurd (List.cons.inj hwhole).1 hc
  | missed _ => exact absurd (List.cons.inj hwhole).1 hc

theorem ReplacedBut.of_append {p : Char} {front tail : List Char} (hfront : p ∉ front)
    (h : ReplacedBut (p :: tail) value n (front ++ text) out) :
    exists out', out = front ++ out' ∧ ReplacedBut (p :: tail) value n text out' := by
  induction front generalizing out with
  | nil => exact ⟨out, rfl, h⟩
  | cons c front ih =>
      rcases not_or.1 (mt List.mem_cons.2 hfront) with ⟨hc, hrest⟩
      rcases h.of_cons (Ne.symm hc) with ⟨out', rfl, hout'⟩
      rcases ih hrest hout' with ⟨out'', rfl, hout''⟩
      exact ⟨out'', rfl, hout''⟩

theorem ReplacedBut.cons (hpattern : Headed pattern) (h : ReplacedBut pattern value n text out)
    (c : Char) :
    exists more, occurrences pattern (c :: text) = occurrences pattern text + more ∧
      ReplacedBut pattern value (n + more) (c :: text) (c :: out) := by
  by_cases hstarts : pattern <+: c :: text
  · refine ⟨1, occurrences_of_starts hstarts, ?_⟩
    rcases hpattern with ⟨p, tail, rfl, htail⟩
    rcases hstarts with ⟨rest, hrest⟩
    cases hrest
    rcases h.of_append htail with ⟨out', rfl, hout'⟩
    exact hout'.missed
  · exact ⟨0, occurrences_of_not_starts hstarts, h.char hstarts⟩

theorem ReplacedBut.append (hpattern : Headed pattern) (h : ReplacedBut pattern value n text out)
    (front : List Char) :
    exists more, occurrences pattern (front ++ text) = occurrences pattern text + more ∧
      ReplacedBut pattern value (n + more) (front ++ text) (front ++ out) := by
  induction front with
  | nil => exact ⟨0, rfl, h⟩
  | cons c front ih =>
      rcases ih with ⟨more, hcount, hfront⟩
      rcases hfront.cons hpattern c with ⟨last, hlast, hcons⟩
      refine ⟨more + last, ?_, ?_⟩
      · rw [List.cons_append, hlast, hcount, Nat.add_assoc]
      · rw [← Nat.add_assoc]
        exact hcons

theorem replacedBut_self (hpattern : Headed pattern) (value text : List Char) :
    ReplacedBut pattern value (occurrences pattern text) text text := by
  have hnil : ReplacedBut pattern value 0 [] [] := .nil
  rcases hnil.append hpattern text with ⟨more, hcount, h⟩
  rw [List.append_nil] at hcount h
  rw [hcount]
  exact h

/-! ## What the passed over occurrences make a difference to -/

theorem ReplacedBut.measure_eq (hpattern : pattern ≠ []) (h : ReplacedBut pattern value n text out)
    {measure : List Char -> Nat} (hadd : forall a b, measure (a ++ b) = measure a + measure b) :
    measure (replaceAll pattern value text) + n * measure pattern =
      measure out + n * measure value := by
  induction h with
  | nil =>
      rw [Nat.zero_mul, Nat.zero_mul]
      rfl
  | @char n c text out hnot _ ih =>
      rw [replaceAll_of_not_starts hnot, ← List.singleton_append, hadd, Nat.add_assoc, ih,
        ← Nat.add_assoc, ← hadd]
      rfl
  | put _ ih =>
      rw [replaceAll_append_self hpattern, hadd, Nat.add_assoc, ih, ← Nat.add_assoc, ← hadd]
  | missed _ ih =>
      rw [replaceAll_append_self hpattern, hadd, hadd, Nat.succ_mul, Nat.succ_mul]
      omega

/-- Replacing every occurrence trades all of them. -/
theorem measure_replaceAll (hpattern : Headed pattern) (value text : List Char)
    {measure : List Char -> Nat} (hadd : forall a b, measure (a ++ b) = measure a + measure b) :
    measure (replaceAll pattern value text) + occurrences pattern text * measure pattern =
      measure text + occurrences pattern text * measure value :=
  (replacedBut_self hpattern value text).measure_eq hpattern.ne_nil hadd

theorem ReplacedBut.of_length_eq (hpattern : pattern ≠ []) (hlength : value.length = pattern.length)
    (h : ReplacedBut pattern value n text out) (heq : replaceAll pattern value text = out) :
    n = 0 ∨ value = pattern := by
  induction h with
  | nil => exact .inl rfl
  | char hnot _ ih =>
      rw [replaceAll_of_not_starts hnot] at heq
      exact ih (List.cons.inj heq).2
  | put _ ih =>
      rw [replaceAll_append_self hpattern] at heq
      exact ih (List.append_cancel_left heq)
  | missed _ _ =>
      rw [replaceAll_append_self hpattern] at heq
      exact .inr (List.append_inj_left heq hlength)

/-- Replacing every occurrence comes to the same just if none was passed over, or none matters. -/
theorem ReplacedBut.replaceAll_eq_iff (hpattern : pattern ≠ [])
    (h : ReplacedBut pattern value n text out) :
    replaceAll pattern value text = out ↔ n = 0 ∨ value = pattern := by
  constructor
  · intro heq
    have hmeasure := h.measure_eq hpattern (fun _ _ => List.length_append)
    rw [heq] at hmeasure
    rcases Nat.eq_zero_or_pos n with hzero | hpos
    · exact .inl hzero
    · have hlength : value.length = pattern.length :=
        (Nat.eq_of_mul_eq_mul_left hpos (Nat.add_left_cancel hmeasure)).symm
      exact h.of_length_eq hpattern hlength heq
  · intro hnone
    induction h with
    | nil => rfl
    | char hnot _ ih => rw [replaceAll_of_not_starts hnot, ih hnone]
    | put _ ih => rw [replaceAll_append_self hpattern, ih hnone]
    | missed _ ih =>
        have hvalue := hnone.resolve_left nofun
        rw [replaceAll_append_self hpattern, ih (.inr hvalue), hvalue]

end Pattern

end Text
end SurfaceFeed
