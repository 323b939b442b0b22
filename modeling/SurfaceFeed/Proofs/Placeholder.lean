import SurfaceFeed.Placeholder
import SurfaceFeed.Proofs.Path
import SurfaceFeed.Proofs.Text.Occurrence

/-!
# Placeholders in paths

## Segment by segment

No placeholder has a slash in it.  So a text that is a path is filled segment by
segment, whatever is filled in, and a segment without placeholders stays as it
is.  The placeholder of the position gives its decimal text.
-/

namespace SurfaceFeed

namespace Placeholder

open Text

/-! ## Fields -/

def fieldPlaceholder (word : List Char) : List Char :=
  fieldOpening ++ (word ++ ['\x7d'])

theorem length_fieldPlaceholder (word : List Char) :
    (fieldPlaceholder word).length = fieldLength word := by
  rw [fieldPlaceholder, List.length_append, List.length_append, fieldLength, Nat.add_assoc]
  rfl

theorem slash_not_mem_fieldPlaceholder {word : List Char}
    (h : forall c, c ∈ word -> isWordChar c = true) : '/' ∉ fieldPlaceholder word := by
  have hword : '/' ∉ word := by
    intro hmem
    cases h '/' hmem
  rw [fieldPlaceholder, List.mem_append, List.mem_append, not_or, not_or]
  exact ⟨by decide, hword, by decide⟩

theorem fieldWord?_eq_some_iff {text word : List Char} :
    fieldWord? text = some word ↔
      (word ≠ [] ∧ forall c, c ∈ word -> isWordChar c = true) ∧
        fieldPlaceholder word <+: text := by
  rw [fieldWord?]
  constructor
  · intro h
    cases hafter : after? fieldOpening text with
    | none =>
        rw [hafter] at h
        cases h
    | some after =>
        rw [hafter] at h
        have hwhole := List.takeWhile_append_dropWhile (p := isWordChar) (l := after)
        dsimp only at h
        split at h
        · cases h
        · next rest hrest hne =>
            cases h
            refine ⟨⟨hne, List.all_eq_true.1 List.all_takeWhile⟩, rest, ?_⟩
            rw [hrest] at hwhole
            rw [eq_append_of_after? hafter, fieldPlaceholder, List.append_assoc, List.append_assoc]
            exact congrArg (fieldOpening ++ ·) hwhole
        · cases h
  · intro h
    rcases h with ⟨⟨hne, hword⟩, rest, rfl⟩
    have hstop : ¬ isWordChar '\x7d' = true := by decide
    rw [fieldPlaceholder, List.append_assoc, List.append_assoc, after?_append]
    simp only [List.takeWhile_append_of_pos hword, List.dropWhile_append_of_pos hword,
      List.singleton_append, List.takeWhile_cons_of_neg hstop, List.dropWhile_cons_of_neg hstop,
      List.append_nil]

/-- The name of a field ends before the next slash. -/
theorem fieldWord?_append_slash (front back : List Char) :
    fieldWord? (front ++ '/' :: back) = fieldWord? front := by
  apply Option.ext
  intro word
  rw [fieldWord?_eq_some_iff, fieldWord?_eq_some_iff]
  apply and_congr_right
  intro hword
  exact prefix_append_slash (slash_not_mem_fieldPlaceholder hword.2)

theorem fillFieldsFrom_append_slash (value : Value) {skip : Nat} {front : List Char}
    (hskip : skip ≤ front.length) (back : List Char) :
    fillFieldsFrom value skip (front ++ '/' :: back) =
      fillFieldsFrom value skip front ++ '/' :: fillFieldsFrom value 0 back := by
  induction front generalizing skip with
  | nil =>
      have hnone : fieldWord? ('/' :: back) = none := fieldWord?_append_slash [] back
      rw [Nat.le_zero.1 hskip, List.nil_append, fillFieldsFrom, fillFieldsFrom, hnone]
      rfl
  | cons c front ih =>
      cases skip with
      | succ skip => exact ih (Nat.le_of_succ_le_succ hskip)
      | zero =>
          have hsame := fieldWord?_append_slash (c :: front) back
          rw [List.cons_append] at hsame
          rw [List.cons_append, fillFieldsFrom, fillFieldsFrom, hsame]
          cases hfront : fieldWord? (c :: front) with
          | none =>
              show c :: fillFieldsFrom value 0 (front ++ '/' :: back) = _
              rw [ih (Nat.zero_le front.length)]
              rfl
          | some word =>
              have hlength := (fieldWord?_eq_some_iff.1 hfront).2.length_le
              rw [length_fieldPlaceholder] at hlength
              have hrest : fieldLength word - 1 ≤ front.length := Nat.sub_le_of_le_add hlength
              show fieldText value word ++ _ = (fieldText value word ++ _) ++ _
              rw [ih hrest, List.append_assoc]

theorem fillFields_of_not_occurs (value : Value) {text : List Char}
    (h : Text.occursIn fieldOpening text = false) : fillFields value text = text := by
  induction text with
  | nil => rfl
  | cons c text ih =>
      rcases occursIn_cons_eq_false h with ⟨hnone, hrest⟩
      have hword : fieldWord? (c :: text) = none := by
        rw [fieldWord?, hnone]
      rw [fillFields, fillFieldsFrom, hword]
      exact congrArg (c :: ·) (ih hrest)

/-! ## All placeholders -/

theorem fillChars_append_slash (value : Value) (position : Nat) (front back : List Char) :
    fillChars value position (front ++ '/' :: back) =
      fillChars value position front ++ '/' :: fillChars value position back := by
  have hfields : fillFields value (front ++ '/' :: back) =
      fillFields value front ++ '/' :: fillFields value back :=
    fillFieldsFrom_append_slash value (Nat.zero_le _) back
  simp only [fillChars]
  rw [hfields, replaceAll_append_slash (by decide) (by decide),
    replaceAll_append_slash (by decide) (by decide)]

theorem fill_append_slash (value : Value) (position : Nat) (front back : String) :
    fill value position (front ++ "/" ++ back) =
      fill value position front ++ "/" ++ fill value position back := by
  have htext : (front ++ "/" ++ back).toList = front.toList ++ '/' :: back.toList := by
    rw [String.toList_append, String.toList_append, List.append_assoc]
    rfl
  rw [fill, htext, fillChars_append_slash, fill, fill]
  apply String.toList_injective
  simp

theorem fill_of_plain {text : String} (h : occursIn text = false) (value : Value)
    (position : Nat) : fill value position text = text := by
  rw [occursIn, Bool.or_eq_false_iff, Bool.or_eq_false_iff] at h
  rcases h with ⟨⟨hfield, hindex⟩, hitem⟩
  simp only [fill, fillChars]
  rw [fillFields_of_not_occurs value hfield, replaceAll_of_not_occurs _ hindex,
    replaceAll_of_not_occurs _ hitem, String.ofList_toList]

theorem fill_index (value : Value) (position : Nat) :
    fill value position "\x7bindex\x7d" = toString position := by
  have hindex : replaceAll index (Nat.toDigits 10 position) index = Nat.toDigits 10 position :=
    List.append_nil _
  have hnot : Text.occursIn item (toString position).toList = false :=
    not_occurs_of_not_mem (Value.not_mem_toString rfl) _
  show String.ofList (fillChars value position index) = _
  simp only [fillChars]
  rw [fillFields_of_not_occurs value (by decide), hindex, ← Value.toList_toString,
    replaceAll_of_not_occurs _ hnot, String.ofList_toList]

end Placeholder
end SurfaceFeed
