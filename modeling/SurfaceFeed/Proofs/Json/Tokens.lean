import SurfaceFeed.Json.Printer
import SurfaceFeed.Proofs.Candidates
import SurfaceFeed.Proofs.Json.Encoded
import SurfaceFeed.Proofs.Json.Reading

/-!
# Printed strings and numbers

## Strings

Printing marks the characters of a string that would end it or that may not stand
in it.  What is read of the marks are these characters again.
-/

namespace SurfaceFeed
namespace Json

open Text

theorem Body.of_bytes {bytes s out : Bytes}
    (h : forall b, b ∈ bytes -> b ≠ 0x22 ∧ b ≠ 0x5c ∧ 0x20 ≤ b) (hs : Body s out) :
    Body (bytes ++ s) (bytes ++ out) := by
  induction bytes with
  | nil => exact hs
  | cons b bytes ih =>
      rcases h b List.mem_cons_self with ⟨hquote, hslash, hlow⟩
      exact .byte hquote hslash hlow (ih fun x hx => h x (List.mem_cons_of_mem b hx))

theorem hexEscape_paddedHex (n : Fin 0x20) :
    (Reader.hexEscape (encode (paddedHex 4 n))).toOption = some (n.val, []) := by
  revert n
  decide

theorem body_control {c : Char} (hc : c.toNat < 0x20) {s out : Bytes} (hs : Body s out) :
    Body (encode (['\\', 'u'] ++ paddedHex 4 c.toNat) ++ s) (String.utf8EncodeChar c ++ out) := by
  have hread : Reader.hexEscape (encode (paddedHex 4 c.toNat)) = .ok (c.toNat, []) := by
    have hopt := hexEscape_paddedHex ⟨c.toNat, hc⟩
    cases h : Reader.hexEscape (encode (paddedHex 4 c.toNat)) with
    | ok r =>
        rw [h] at hopt
        exact congrArg Except.ok (Option.some.inj hopt)
    | error e =>
        rw [h] at hopt
        cases hopt
  rcases exists_hex_of_hexEscape hread with ⟨x, y, z, w, hdigits, hvalue⟩
  have htrailing : Reader.isTrailing c.toNat = false := by
    simp [Reader.isTrailing]
    omega
  have hleading : Reader.isLeading c.toNat = false := by
    simp [Reader.isLeading]
    omega
  have hcode := Body.escape (.code hvalue htrailing hleading) hs
  have hchar : Reader.encodeCode c.toNat = String.utf8EncodeChar c := by
    rw [Reader.encodeCode, Char.ofNat_toNat]
  have hmark : encode ['\\', 'u'] = [0x5c, 0x75] := by decide
  rw [hchar] at hcode
  rw [encode_append, hmark, hdigits]
  exact hcode

theorem bytes_of_unmarked {c : Char} (hquote : c ≠ '"') (hslash : c ≠ '\\')
    (hlow : ¬ c.toNat < 0x20) : forall b, b ∈ String.utf8EncodeChar c ->
      b ≠ 0x22 ∧ b ≠ 0x5c ∧ 0x20 ≤ b := by
  intro b hb
  refine ⟨?_, ?_, ?_⟩
  · rintro rfl
    exact hquote (eq_ofNat_of_mem_encodeChar hb (by decide))
  · rintro rfl
    exact hslash (eq_ofNat_of_mem_encodeChar hb (by decide))
  · apply UInt8.not_lt.1
    intro hlt
    have hb' : b.toNat < 0x20 := hlt
    have hcode : (Char.ofNat b.toNat).toNat = b.toNat := toNat_ofNat_of_valid (.inl (by omega))
    apply hlow
    rw [eq_ofNat_of_mem_encodeChar hb (by omega), hcode]
    exact hb'

theorem body_escapedChar (c : Char) {s out : Bytes} (hs : Body s out) :
    Body (encode (escapedChar c) ++ s) (String.utf8EncodeChar c ++ out) := by
  have hchar : forall n : Nat, (c.toNat == n) = true -> c = Char.ofNat n := by
    intro n hn
    rw [← eq_of_beq hn]
    exact (Char.ofNat_toNat c).symm
  have hmark : forall {b x : UInt8}, b ≠ 0x75 -> Reader.shortEscape? b = some x ->
      Body (0x5c :: b :: s) (x :: out) := fun hb hx => .escape (.short hb hx) hs
  rw [escapedChar]
  split
  · next h =>
      cases eq_of_beq h
      exact hmark (by decide) rfl
  next hquote =>
  split
  · next h =>
      cases eq_of_beq h
      exact hmark (by decide) rfl
  next hslash =>
  split
  · next h =>
      cases hchar _ h
      exact hmark (by decide) rfl
  split
  · next h =>
      cases hchar _ h
      exact hmark (by decide) rfl
  split
  · next h =>
      cases hchar _ h
      exact hmark (by decide) rfl
  split
  · next h =>
      cases hchar _ h
      exact hmark (by decide) rfl
  split
  · next h =>
      cases hchar _ h
      exact hmark (by decide) rfl
  split
  · next h => exact body_control h hs
  · next hlow =>
      rw [encode_singleton]
      exact hs.of_bytes (bytes_of_unmarked (by simpa using hquote) (by simpa using hslash) hlow)

theorem body_escaped (cs : List Char) : Body (encode (cs.flatMap escapedChar)) (encode cs) := by
  induction cs with
  | nil => exact .nil
  | cons c cs ih =>
      rw [List.flatMap_cons, encode_append, encode_cons]
      exact body_escapedChar c ih

/-- A printed string is read as the string. -/
theorem exists_quoted_writeString (s : String) :
    exists q, bytesOf (writeString s) = 0x22 :: q ∧ Quoted q s := by
  refine ⟨encode (s.toList.flatMap escapedChar) ++ [0x22], ?_, ?_⟩
  · rw [bytesOf, writeString, String.toList_ofList, encode_append, encode_cons]
    rfl
  · have hquoted := Quoted.mk (body_escaped s.toList) ((decode_eq_ok_iff _ s.toList).2 rfl)
    rw [String.ofList_toList] at hquoted
    exact hquoted

theorem Quoted.append_inj {q q' rest rest' : Bytes} {s s' : String} (h : Quoted q s)
    (h' : Quoted q' s') (heq : q ++ rest = q' ++ rest') : s = s' ∧ q = q' ∧ rest = rest' := by
  have hread := h.string_append rest (Nat.le_max_left q.length q'.length)
  have hread' := h'.string_append rest' (Nat.le_max_right q.length q'.length)
  rw [heq, hread'] at hread
  cases hread
  exact ⟨rfl, List.append_cancel_right heq, rfl⟩

/-! ## Numbers

A printed number has only bytes of numbers, so it is told from what follows it.
Whether it can be read, and as which number, is left to the reader: of a float it
need not be the float that was printed.
-/

def isNumeralChar (c : Char) : Bool :=
  c.isDigit || ['.', 'e', '+', '-'].contains c

structure Numeral (s : Bytes) : Prop where
  nonempty : s ≠ []
  numeric : forall b, b ∈ s -> Number.isNumeric b = true

theorem isNumeric_of_isNumeralChar {c : Char} (h : isNumeralChar c = true) :
    forall b, b ∈ String.utf8EncodeChar c -> Number.isNumeric b = true := by
  have hascii : forall n : Fin 0x80, isNumeralChar (Char.ofNat n) = true ->
      (String.utf8EncodeChar (Char.ofNat n)).all Number.isNumeric = true := by
    decide
  have hlow : c.toNat < 0x80 := by
    simp only [isNumeralChar, Bool.or_eq_true, Char.isDigit, Bool.and_eq_true,
      decide_eq_true_eq, List.contains_eq_mem, List.mem_cons, List.not_mem_nil, or_false] at h
    rcases h with ⟨_, hdigit⟩ | rfl | rfl | rfl | rfl
    · exact Nat.lt_of_le_of_lt (UInt32.le_iff_toNat_le.1 hdigit) (by decide)
    all_goals decide
  have hall := hascii ⟨c.toNat, hlow⟩
  rw [Char.ofNat_toNat] at hall
  exact List.all_eq_true.1 (hall h)

structure NumeralText (text : String) : Prop where
  nonempty : text.toList ≠ []
  chars : forall c, c ∈ text.toList -> isNumeralChar c = true

theorem NumeralText.numeral {text : String} (h : NumeralText text) :
    Numeral (bytesOf text) := by
  refine ⟨?_, ?_⟩
  · rcases List.exists_cons_of_ne_nil h.nonempty with ⟨c, cs, hcs⟩
    rcases exists_cons_of_encodeChar c with ⟨b, tail, hbytes⟩
    rw [bytesOf, hcs, encode_cons, hbytes]
    exact List.cons_ne_nil b _
  · intro b hb
    rcases List.mem_flatMap.1 hb with ⟨c, hc, hmem⟩
    exact isNumeric_of_isNumeralChar (h.chars c hc) b hmem

theorem numeralText_ofList {cs : List Char} (hne : cs ≠ [])
    (h : forall c, c ∈ cs -> isNumeralChar c = true) : NumeralText (String.ofList cs) := by
  refine ⟨?_, ?_⟩
  · rw [String.toList_ofList]
    exact hne
  · rw [String.toList_ofList]
    exact h

theorem NumeralText.append {a b : String} (ha : NumeralText a)
    (hb : forall c, c ∈ b.toList -> isNumeralChar c = true) : NumeralText (a ++ b) := by
  refine ⟨?_, ?_⟩
  · rw [String.toList_append]
    exact List.append_ne_nil_of_left_ne_nil ha.nonempty _
  · intro c hc
    rw [String.toList_append] at hc
    rcases List.mem_append.1 hc with hc | hc
    · exact ha.chars c hc
    · exact hb c hc

theorem isNumeralChar_of_mem_toDigits {n : Nat} {c : Char} (h : c ∈ Nat.toDigits 10 n) :
    isNumeralChar c = true := by
  rw [isNumeralChar, Nat.isDigit_of_mem_toDigits (by decide) (by decide) h]
  rfl

theorem numeralText_toDigits (n : Nat) : NumeralText (String.ofList (Nat.toDigits 10 n)) :=
  numeralText_ofList Nat.toDigits_ne_nil fun _ => isNumeralChar_of_mem_toDigits

theorem numeralText_minus : NumeralText "-" :=
  ⟨by decide, List.all_eq_true.1 (by decide)⟩

theorem numeralText_writeInt (n : Int) : NumeralText (writeInt n) := by
  rw [writeInt]
  split
  · exact numeralText_minus.append (numeralText_toDigits _).chars
  · exact numeralText_toDigits _

theorem isNumeralChar_of_mem_zeros {n : Nat} {c : Char}
    (h : c ∈ (Decimal.Layout.zeros n).toList) : isNumeralChar c = true := by
  rw [Decimal.Layout.zeros, String.toList_ofList] at h
  rw [List.eq_of_mem_replicate h]
  rfl

theorem numeralText_written (x : Decimal) : NumeralText (Decimal.documentLayout.written x) := by
  rw [Decimal.Layout.written]
  dsimp only
  split
  · refine ((numeralText_toDigits _).append fun c => isNumeralChar_of_mem_zeros).append ?_
    exact List.all_eq_true.1 (by decide)
  · split
    · refine numeralText_ofList (by simp) ?_
      intro c hc
      rw [List.mem_append, List.mem_cons] at hc
      rcases hc with hc | rfl | hc
      · exact isNumeralChar_of_mem_toDigits (List.mem_of_mem_take hc)
      · decide
      · exact isNumeralChar_of_mem_toDigits (List.mem_of_mem_drop hc)
    · have hpoint : NumeralText "0." := ⟨by decide, List.all_eq_true.1 (by decide)⟩
      exact (hpoint.append fun c => isNumeralChar_of_mem_zeros).append
        (numeralText_toDigits _).chars

theorem numeralText_scientific (x : Decimal) (leading : Int) :
    NumeralText (Decimal.Layout.scientific x leading) := by
  have hletter : "e".toList.all isNumeralChar = true := by decide
  have hdigits := @isNumeralChar_of_mem_toDigits x.digits
  rw [Decimal.Layout.scientific]
  refine ((NumeralText.append ?_ (List.all_eq_true.1 hletter)).append ?_).append
    (numeralText_toDigits _).chars
  · split
    · next hnil => exact absurd hnil Nat.toDigits_ne_nil
    · next d hd =>
        rw [hd] at hdigits
        exact numeralText_ofList (List.cons_ne_nil d []) fun _ => hdigits
    · next d rest _ hd =>
        rw [hd] at hdigits
        refine numeralText_ofList (List.cons_ne_nil d _) ?_
        intro c hc
        rcases List.mem_cons.1 hc with rfl | hc
        · exact hdigits List.mem_cons_self
        · rcases List.mem_cons.1 hc with rfl | hc
          · decide
          · exact hdigits (List.mem_cons_of_mem d hc)
  · split <;> exact List.all_eq_true.1 (by decide)

theorem writeFloat_cases (f : Float) : writeFloat f = "null" ∨ NumeralText (writeFloat f) := by
  have hsigned : forall text, NumeralText text ->
      NumeralText (Decimal.Layout.signed (Decimal.isNegative f) text) := by
    intro text htext
    rw [Decimal.Layout.signed]
    split
    · exact numeralText_minus.append htext.chars
    · exact htext
  rw [writeFloat, Decimal.Layout.write]
  split
  · exact .inr (hsigned _ ⟨by decide, List.all_eq_true.1 (by decide)⟩)
  · refine .inr (hsigned _ ?_)
    rw [Decimal.Layout.magnitude]
    split
    · exact numeralText_written _
    · exact numeralText_scientific _ _
  · exact .inl rfl
  · exact .inl rfl

theorem takeWhile_isNumeric {s rest : Bytes}
    (h : forall b, b ∈ s -> Number.isNumeric b = true) (hrest : Number.Stops rest) :
    (s ++ rest).takeWhile Number.isNumeric = s := by
  rw [List.takeWhile_append_of_pos h]
  cases rest with
  | nil => simp
  | cons b rest =>
      have hb : Number.isNumeric b = false := hrest b rest rfl
      simp [hb]

/-- A number is told from what follows it. -/
theorem eq_of_numeric_append {s s' rest rest' : Bytes}
    (h : forall b, b ∈ s -> Number.isNumeric b = true)
    (h' : forall b, b ∈ s' -> Number.isNumeric b = true) (hrest : Number.Stops rest)
    (hrest' : Number.Stops rest') (heq : s ++ rest = s' ++ rest') : s = s' ∧ rest = rest' := by
  have hs : s = s' := by
    rw [← takeWhile_isNumeric h hrest, heq, takeWhile_isNumeric h' hrest']
  subst hs
  exact ⟨rfl, List.append_cancel_left heq⟩

end Json
end SurfaceFeed
