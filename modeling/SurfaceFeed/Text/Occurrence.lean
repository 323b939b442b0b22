/-!
# Occurrences of a pattern

## Cutting at the first occurrence, replacing every one

Occurrences are found from left to right and do not overlap.  Text that a
replacement brings in is not searched again.
-/

namespace SurfaceFeed
namespace Text

/-- What follows `pattern` at the start of `text`, if the text starts with it. -/
def after? : List Char -> List Char -> Option (List Char)
  | [], text => some text
  | _ :: _, [] => none
  | p :: pattern, c :: text => if p = c then after? pattern text else none

def startsWith (pattern text : List Char) : Bool :=
  (after? pattern text).isSome

/-- The text before the first occurrence of `pattern`, and the text after it. -/
def cut? (pattern : List Char) : List Char -> Option (List Char × List Char)
  | [] => if pattern.isEmpty then some ([], []) else none
  | c :: text =>
      match after? pattern (c :: text) with
      | some after => some ([], after)
      | none => (cut? pattern text).map fun (before, after) => (c :: before, after)

def occursIn (pattern text : List Char) : Bool :=
  (cut? pattern text).isSome

/-- Replaces in the text that is left when `skip` more characters are passed over. -/
def replaceFrom (pattern value : List Char) : Nat -> List Char -> List Char
  | _, [] => []
  | skip + 1, _ :: text => replaceFrom pattern value skip text
  | 0, c :: text =>
      if startsWith pattern (c :: text) then
        value ++ replaceFrom pattern value (pattern.length - 1) text
      else
        c :: replaceFrom pattern value 0 text

/-- Puts `value` in the place of every occurrence of a nonempty `pattern`. -/
def replaceAll (pattern value text : List Char) : List Char :=
  replaceFrom pattern value 0 text

/-! ## Where an occurrence is found -/

theorem eq_append_of_after? {pattern text rest : List Char}
    (h : after? pattern text = some rest) : text = pattern ++ rest := by
  induction pattern generalizing text with
  | nil =>
      simp only [after?, Option.some.injEq] at h
      simp [h]
  | cons p pattern ih =>
      cases text with
      | nil => simp [after?] at h
      | cons c text =>
          by_cases hp : p = c
          · simp only [after?, hp, if_true] at h
            simp [hp, ih h]
          · simp [after?, hp] at h

@[simp] theorem after?_append (pattern rest : List Char) :
    after? pattern (pattern ++ rest) = some rest := by
  induction pattern with
  | nil => rfl
  | cons p pattern ih => simp [after?, ih]

end Text
end SurfaceFeed
