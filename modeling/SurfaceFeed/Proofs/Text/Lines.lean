import Mathlib.Algebra.GroupWithZero.Nat
import SurfaceFeed.Value.Basic

/-!
# Line feeds in printed texts

## What stays on one line

A compact document has no line feed, for in its strings a line feed is marked,
and all else is written in digits, brackets and words.  So a value that is shown
inside a text breaks its line only if it is a text itself.
-/

namespace SurfaceFeed

namespace Text

/-- How many line feeds a text has. -/
def breaks (text : String) : Nat :=
  text.toList.count '\n'

theorem breaks_eq_zero_iff {text : String} : breaks text = 0 ↔ '\n' ∉ text.toList :=
  List.count_eq_zero

@[simp] theorem breaks_ofList (chars : List Char) : breaks (String.ofList chars) = chars.count '\n' := by
  rw [breaks, String.toList_ofList]

@[simp] theorem breaks_append (a b : String) : breaks (a ++ b) = breaks a + breaks b := by
  rw [breaks, String.toList_append, List.count_append]
  rfl

@[simp] theorem breaks_join (texts : List String) :
    breaks (String.join texts) = (texts.map breaks).sum := by
  rw [breaks, String.toList_join, List.count_flatMap]
  rfl

theorem breaks_intercalate {separator : String} (hseparator : breaks separator = 0)
    {texts : List String} (h : forall text, text ∈ texts -> breaks text = 0) :
    breaks (separator.intercalate texts) = 0 := by
  induction texts with
  | nil => rfl
  | cons text texts ih =>
      have htext := h text List.mem_cons_self
      have hrest := ih fun other hother => h other (List.mem_cons_of_mem text hother)
      cases texts with
      | nil => rw [String.intercalate_singleton, htext]
      | cons next texts => simp [String.intercalate_cons_cons, htext, hseparator, hrest]

end Text

open Text

/-! ## Numbers -/

namespace Decimal.Layout

theorem newLine_not_mem_toDigits (n : Nat) : '\n' ∉ Nat.toDigits 10 n := by
  intro hmem
  have hdigit := Nat.isDigit_of_mem_toDigits (by decide) (by decide) hmem
  cases hdigit

@[simp] theorem count_newLine_toDigits (n : Nat) : (Nat.toDigits 10 n).count '\n' = 0 :=
  List.count_eq_zero.2 (newLine_not_mem_toDigits n)

@[simp] theorem breaks_zeros (n : Nat) : breaks (zeros n) = 0 := by
  simp [zeros, List.count_replicate]

theorem breaks_signed {negative : Bool} {text : String} (h : breaks text = 0) :
    breaks (signed negative text) = 0 := by
  cases negative with
  | false => exact h
  | true =>
      have hminus : breaks "-" = 0 := rfl
      simp [signed, hminus, h]

theorem breaks_written {layout : Layout} (hmark : breaks layout.wholeMark = 0) (x : Decimal) :
    breaks (layout.written x) = 0 := by
  have hdigits := newLine_not_mem_toDigits x.digits
  rw [written]
  dsimp only
  split
  · simp [hmark]
  · split
    · rw [breaks_ofList, List.count_eq_zero, List.mem_append, List.mem_cons, not_or, not_or]
      exact ⟨fun h => hdigits (List.mem_of_mem_take h), by decide,
        fun h => hdigits (List.mem_of_mem_drop h)⟩
    · have hwhole : breaks "0." = 0 := rfl
      simp [hwhole]

theorem breaks_scientific (x : Decimal) (leading : Int) : breaks (scientific x leading) = 0 := by
  have hdigits := newLine_not_mem_toDigits x.digits
  have hsign : breaks (if leading < 0 then "-" else "+") = 0 := by
    split <;> rfl
  have hletter : breaks "e" = 0 := rfl
  simp only [scientific, breaks_append, breaks_ofList, count_newLine_toDigits, hsign, hletter,
    Nat.add_zero]
  split
  · rfl
  · next d hd =>
      rw [hd] at hdigits
      rw [breaks_ofList, List.count_eq_zero.2 hdigits]
  · next d rest _ hd =>
      rw [hd, List.mem_cons, not_or] at hdigits
      rw [breaks_ofList, List.count_eq_zero.2]
      rw [List.mem_cons, List.mem_cons, not_or, not_or]
      exact ⟨hdigits.1, by decide, hdigits.2⟩

theorem breaks_write {layout : Layout} (hmark : breaks layout.wholeMark = 0)
    (hzero : forall negative, breaks (layout.zero negative) = 0)
    (hinfinite : forall negative, breaks (layout.infinite negative) = 0)
    (hundefined : breaks layout.notANumber = 0) (f : Float) : breaks (layout.write f) = 0 := by
  rw [write]
  split
  · exact hzero _
  · apply breaks_signed
    rw [magnitude]
    split
    · exact breaks_written hmark _
    · exact breaks_scientific _ _
  · exact hinfinite _
  · exact hundefined

end Decimal.Layout

/-! ## Documents -/

namespace Json

theorem newLine_not_mem_paddedHex (n : Fin 0x20) : '\n' ∉ Text.paddedHex 4 n := by
  revert n
  decide

theorem newLine_not_mem_escapedChar (c : Char) : '\n' ∉ escapedChar c := by
  rw [escapedChar]
  repeat' split
  · decide
  · decide
  · decide
  · decide
  · decide
  · decide
  · decide
  · next hlow =>
      rw [List.mem_append, not_or]
      exact ⟨by decide, newLine_not_mem_paddedHex ⟨c.toNat, hlow⟩⟩
  · next hfeed _ _ _ =>
      rw [List.mem_singleton]
      rintro rfl
      exact hfeed rfl

@[simp] theorem breaks_writeString (s : String) : breaks (writeString s) = 0 := by
  rw [writeString, breaks_ofList, List.count_eq_zero, List.mem_append, List.mem_cons, not_or, not_or]
  refine ⟨⟨by decide, fun h => ?_⟩, by decide⟩
  rcases List.mem_flatMap.1 h with ⟨c, _, hc⟩
  exact newLine_not_mem_escapedChar c hc

@[simp] theorem breaks_writeInt (n : Int) : breaks (writeInt n) = 0 := by
  have hminus : breaks "-" = 0 := rfl
  rw [writeInt]
  split <;> simp [hminus]

@[simp] theorem breaks_writeBool (b : Bool) : breaks (writeBool b) = 0 := by
  cases b <;> rfl

@[simp] theorem breaks_writeFloat (f : Float) : breaks (writeFloat f) = 0 := by
  have hmark : breaks Decimal.documentLayout.wholeMark = 0 := rfl
  have hzero : breaks "0.0" = 0 := rfl
  have hnull : breaks "null" = 0 := rfl
  exact Decimal.Layout.breaks_write hmark (fun _ => Decimal.Layout.breaks_signed hzero)
    (fun _ => hnull) hnull f

mutual

@[simp] theorem breaks_compact : forall v : Json, breaks v.compact = 0
  | .null => rfl
  | .bool b => breaks_writeBool b
  | .int n => breaks_writeInt n
  | .float f => breaks_writeFloat f
  | .text s => breaks_writeString s
  | .array items => by
      rw [compact, breaks_append, breaks_append,
        breaks_intercalate rfl (breaks_compactItems items)]
      rfl
  | .object fields => by
      rw [compact, breaks_append, breaks_append,
        breaks_intercalate rfl (breaks_compactFields fields)]
      rfl

theorem breaks_compactItems :
    forall (items : List Json) (member : String), member ∈ compactItems items -> breaks member = 0
  | [], _, h => nomatch h
  | item :: items, member, h => by
      rw [compactItems, List.mem_cons] at h
      rcases h with rfl | h
      · exact breaks_compact item
      · exact breaks_compactItems items member h

theorem breaks_compactFields :
    forall (fields : List (String × Json)) (member : String),
      member ∈ compactFields fields -> breaks member = 0
  | [], _, h => nomatch h
  | (name, value) :: fields, member, h => by
      rw [compactFields, List.mem_cons] at h
      rcases h with rfl | h
      · rw [breaks_append, breaks_append, breaks_writeString, breaks_compact value]
        rfl
      · exact breaks_compactFields fields member h

end

end Json

/-! ## Values -/

namespace Value

/-- Of what is shown of a value, only texts are shown as they are. -/
theorem breaks_display (value : Value) :
    breaks value.display = (value.text?.toList.map breaks).sum := by
  cases value with
  | null => rfl
  | bool b => exact Json.breaks_writeBool b
  | int n => exact Json.breaks_writeInt _
  | float f =>
      have hmark : breaks Decimal.displayLayout.wholeMark = 0 := rfl
      have hzero : breaks "0" = 0 := rfl
      have hinfinite : breaks "inf" = 0 := rfl
      have hundefined : breaks "NaN" = 0 := rfl
      exact Decimal.Layout.breaks_write hmark (fun _ => hzero)
        (fun _ => Decimal.Layout.breaks_signed hinfinite) hundefined f
  | text s => rfl
  | array items => exact Json.breaks_compact _
  | object fields => exact Json.breaks_compact _

end Value
end SurfaceFeed
