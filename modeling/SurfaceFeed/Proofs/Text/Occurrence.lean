import SurfaceFeed.Text.Occurrence

/-!
# Occurrences in paths

## Patterns without a slash

An occurrence of a pattern that has no slash lies between two slashes of a text.
So replacing such a pattern in a path replaces it in each of the segments.

## Texts without a pattern

Where a pattern does not occur nothing is replaced.
-/

namespace SurfaceFeed

namespace Text

theorem startsWith_iff {pattern text : List Char} :
    startsWith pattern text = true ↔ pattern <+: text := by
  rw [startsWith, Option.isSome_iff_exists]
  constructor
  · intro h
    rcases h with ⟨rest, hrest⟩
    exact ⟨rest, (eq_append_of_after? hrest).symm⟩
  · intro h
    rcases h with ⟨rest, rfl⟩
    exact ⟨rest, after?_append pattern rest⟩

theorem prefix_append_slash {pattern : List Char} (hslash : '/' ∉ pattern)
    {front back : List Char} : pattern <+: front ++ '/' :: back ↔ pattern <+: front := by
  induction pattern generalizing front with
  | nil => exact ⟨fun _ => List.nil_prefix, fun _ => List.nil_prefix⟩
  | cons p pattern ih =>
      rcases not_or.1 (mt List.mem_cons.2 hslash) with ⟨hp, hrest⟩
      cases front with
      | nil =>
          rw [List.nil_append, List.cons_prefix_cons]
          exact ⟨fun h => absurd h.1.symm hp, fun h => nomatch List.prefix_nil.1 h⟩
      | cons c front =>
          rw [List.cons_append, List.cons_prefix_cons, List.cons_prefix_cons, ih hrest]

/-! ## First occurrences -/

theorem occursIn_iff {pattern text : List Char} :
    occursIn pattern text = true ↔ pattern <:+: text := by
  induction text with
  | nil =>
      rw [List.infix_nil, occursIn, cut?]
      cases pattern with
      | nil => exact ⟨fun _ => rfl, fun _ => rfl⟩
      | cons p pattern => exact ⟨nofun, nofun⟩
  | cons c text ih =>
      rw [List.infix_cons_iff, ← startsWith_iff, ← ih, startsWith, occursIn, cut?]
      cases after? pattern (c :: text) with
      | some after => exact ⟨fun _ => .inl rfl, fun _ => rfl⟩
      | none =>
          rw [Option.isSome_map, occursIn]
          exact ⟨.inr, fun h => h.resolve_left nofun⟩

theorem occursIn_eq_false_iff {pattern text : List Char} :
    occursIn pattern text = false ↔ ¬ pattern <:+: text := by
  rw [← occursIn_iff, Bool.not_eq_true]

theorem cut?_eq_none_iff {pattern text : List Char} :
    cut? pattern text = none ↔ ¬ pattern <:+: text := by
  rw [← occursIn_eq_false_iff, occursIn, Option.isSome_eq_false_iff, Option.isNone_iff_eq_none]

theorem after?_eq_none_iff {pattern text : List Char} :
    after? pattern text = none ↔ ¬ pattern <+: text := by
  rw [← startsWith_iff, startsWith, Bool.not_eq_true, Option.isSome_eq_false_iff,
    Option.isNone_iff_eq_none]

/-- A text is cut at an occurrence of the pattern if no other one begins before it. -/
theorem cut?_of_first {pattern before : List Char} (hpattern : pattern ≠ []) (after : List Char)
    (h : forall back, back <:+ before -> back ≠ [] -> ¬ pattern <+: back ++ (pattern ++ after)) :
    cut? pattern (before ++ (pattern ++ after)) = some (before, after) := by
  induction before with
  | nil =>
      have hafter := after?_append pattern after
      cases pattern with
      | nil => exact absurd rfl hpattern
      | cons p pattern =>
          rw [List.cons_append] at hafter
          rw [List.nil_append, List.cons_append, cut?, hafter]
  | cons c before ih =>
      have hnone : after? pattern (c :: (before ++ (pattern ++ after))) = none :=
        after?_eq_none_iff.2 (h (c :: before) (List.suffix_refl _) (List.cons_ne_nil _ _))
      have hrest := ih fun back hback => h back (hback.trans (List.suffix_cons c before))
      rw [List.cons_append, cut?, hnone, hrest]
      rfl

/-! ## Replacing -/

section Slash

variable {pattern : List Char} (hslash : '/' ∉ pattern)

include hslash

theorem startsWith_append_slash (front back : List Char) :
    startsWith pattern (front ++ '/' :: back) = startsWith pattern front := by
  rw [Bool.eq_iff_iff, startsWith_iff, startsWith_iff, prefix_append_slash hslash]

theorem replaceFrom_append_slash (hpattern : pattern ≠ []) (value : List Char) {skip : Nat}
    {front : List Char} (hskip : skip ≤ front.length) (back : List Char) :
    replaceFrom pattern value skip (front ++ '/' :: back) =
      replaceFrom pattern value skip front ++ '/' :: replaceFrom pattern value 0 back := by
  induction front generalizing skip with
  | nil =>
      have hstarts : startsWith pattern ('/' :: back) = false := by
        rw [← List.nil_append ('/' :: back), startsWith_append_slash hslash]
        cases pattern with
        | nil => exact absurd rfl hpattern
        | cons p pattern => rfl
      rw [Nat.le_zero.1 hskip, List.nil_append, replaceFrom, replaceFrom, hstarts]
      rfl
  | cons c front ih =>
      cases skip with
      | succ skip => exact ih (Nat.le_of_succ_le_succ hskip)
      | zero =>
          have hstarts := startsWith_append_slash hslash (c :: front) back
          rw [List.cons_append] at hstarts
          rw [List.cons_append, replaceFrom, replaceFrom, hstarts]
          cases hfront : startsWith pattern (c :: front) with
          | false =>
              rw [if_neg Bool.false_ne_true, if_neg Bool.false_ne_true,
                ih (Nat.zero_le front.length)]
              rfl
          | true =>
              -- the occurrence may not reach beyond the slash, or the skip would
              have hlength := (startsWith_iff.1 hfront).length_le
              have hrest : pattern.length - 1 ≤ front.length := Nat.sub_le_of_le_add hlength
              rw [if_pos rfl, if_pos rfl, ih hrest, List.append_assoc]

theorem replaceAll_append_slash (hpattern : pattern ≠ []) (value front back : List Char) :
    replaceAll pattern value (front ++ '/' :: back) =
      replaceAll pattern value front ++ '/' :: replaceAll pattern value back :=
  replaceFrom_append_slash hslash hpattern value (Nat.zero_le _) back

end Slash

theorem occursIn_cons_eq_false {pattern text : List Char} {c : Char}
    (h : occursIn pattern (c :: text) = false) :
    after? pattern (c :: text) = none ∧ occursIn pattern text = false := by
  rw [occursIn, cut?] at h
  split at h
  · cases h
  · next hnone =>
      rw [Option.isSome_map] at h
      exact ⟨hnone, h⟩

theorem replaceAll_of_not_occurs {pattern text : List Char} (value : List Char)
    (h : occursIn pattern text = false) : replaceAll pattern value text = text := by
  induction text with
  | nil => rfl
  | cons c text ih =>
      rcases occursIn_cons_eq_false h with ⟨hnone, hrest⟩
      rw [replaceAll, replaceFrom, startsWith, hnone]
      exact congrArg (c :: ·) (ih hrest)

theorem not_occurs_of_not_mem {c : Char} {text : List Char} (h : c ∉ text)
    (pattern : List Char) : occursIn (c :: pattern) text = false := by
  induction text with
  | nil => rfl
  | cons d text ih =>
      rcases not_or.1 (mt List.mem_cons.2 h) with ⟨hd, hrest⟩
      rw [occursIn, cut?, after?, if_neg hd, Option.isSome_map]
      exact ih hrest

end Text

end SurfaceFeed
