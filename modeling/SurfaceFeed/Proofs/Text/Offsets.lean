import SurfaceFeed.Proofs.Candidates
import SurfaceFeed.Proofs.Text.Occurrence

/-!
# Offsets in texts

## Characters and their bytes

An offset counts the bytes of a text in UTF-8, so not every offset lies between
two characters.  A text is cut at an offset only where one does.  What a search
finds always does: where a pattern first occurs, and where it ends.
-/

namespace SurfaceFeed

namespace Text

def byteLength : List Char -> Nat
  | [] => 0
  | c :: text => c.utf8Size + byteLength text

/-- The text before an offset and the text from there on, if no character is cut. -/
def splitAt? : Nat -> List Char -> Option (List Char × List Char)
  | 0, text => some ([], text)
  | _ + 1, [] => none
  | offset + 1, c :: text =>
      if c.utf8Size ≤ offset + 1 then
        (splitAt? (offset + 1 - c.utf8Size) text).map fun parts => (c :: parts.1, parts.2)
      else none

def offset? (pattern text : List Char) : Option Nat :=
  (cut? pattern text).map fun parts => byteLength parts.1

def offsetWhere? (isWanted : Char -> Bool) : List Char -> Option Nat
  | [] => none
  | c :: text =>
      if isWanted c then some 0 else (offsetWhere? isWanted text).map (c.utf8Size + ·)

@[simp] theorem byteLength_append (a b : List Char) :
    byteLength (a ++ b) = byteLength a + byteLength b := by
  induction a with
  | nil => exact (Nat.zero_add _).symm
  | cons c a ih => rw [List.cons_append, byteLength, byteLength, ih, Nat.add_assoc]

theorem splitAt?_of_eq {text front back : List Char} (h : text = front ++ back) :
    splitAt? (byteLength front) text = some (front, back) := by
  subst h
  induction front with
  | nil => rw [byteLength, splitAt?, List.nil_append]
  | cons c front ih =>
      have hpos := c.utf8Size_pos
      cases hoffset : c.utf8Size + byteLength front with
      | zero => omega
      | succ offset =>
          have hrest : offset + 1 - c.utf8Size = byteLength front := by omega
          have hsize : c.utf8Size ≤ offset + 1 := by omega
          rw [byteLength, hoffset, List.cons_append, splitAt?, if_pos hsize, hrest, ih]
          rfl

/-- No character is cut. -/
example : splitAt? 2 ['é', 'a'] = some (['é'], ['a']) ∧ splitAt? 1 ['é', 'a'] = none := by decide

/-- A kind of characters stops at an offset where the text is cut. -/
theorem offsetWhere?_not (p : Char -> Bool) (text : List Char) :
    (offsetWhere? (fun c => !p c) text).getD (byteLength text) =
      byteLength (text.takeWhile p) := by
  induction text with
  | nil => rfl
  | cons c text ih =>
      cases hc : p c with
      | false =>
          rw [offsetWhere?, hc, List.takeWhile_cons_of_neg (by rw [hc]; decide)]
          rfl
      | true =>
          rw [offsetWhere?, hc, List.takeWhile_cons_of_pos hc, byteLength, byteLength, ← ih]
          cases offsetWhere? (fun c => !p c) text <;> rfl

theorem not_prefix_of_cut? {pattern text before after : List Char}
    (h : cut? pattern text = some (before, after)) {back : List Char} (hback : back <:+ before)
    (hne : back ≠ []) : ¬ pattern <+: back ++ (pattern ++ after) := by
  induction text generalizing before with
  | nil =>
      rw [cut?] at h
      split at h
      · cases h
        exact absurd (List.suffix_nil.1 hback) hne
      · cases h
  | cons c text ih =>
      rw [cut?] at h
      split at h
      · cases h
        exact absurd (List.suffix_nil.1 hback) hne
      · next hnone =>
          rcases Option.map_eq_some_iff.1 h with ⟨⟨front, rest⟩, hcut, hparts⟩
          cases hparts
          rcases List.suffix_cons_iff.1 hback with rfl | hfront
          · rw [eq_append_of_cut? hcut] at hnone
            exact after?_eq_none_iff.1 hnone
          · exact ih hcut hfront

end Text
end SurfaceFeed
