import SurfaceFeed.Proofs.Substitution
import SurfaceFeed.Proofs.Text.Offsets

/-!
# Searching for fields

## From opening to opening

A field is found by its opening: the text is searched for the next one, then the
word after it is read, and if the word is closed at once the field is put in and
the search goes on behind it.  Otherwise only the opening is copied, and the
search goes on right behind the opening, in the middle of what was no field.

The search cuts the text at offsets and goes on as long as there are openings.
It comes to an end on every text, with every offset between two characters, and
what it leaves is the text with all its fields replaced at once.
-/

namespace SurfaceFeed

namespace Placeholder

open Text

/-! ## The search -/

/-- Where a search stands after a round: what it has put out, and the text that is left. -/
inductive Round where
  | finished (out : List Char)
  | next (out rest : List Char)

def round (value : Value) (out rest : List Char) : Option Round :=
  match offset? fieldOpening rest with
  | none => some (.finished (out ++ rest))
  | some start => do
      let (before, _) ← splitAt? start rest
      let (_, after) ← splitAt? (start + byteLength fieldOpening) rest
      let wordEnd := (offsetWhere? (fun c => !isWordChar c) after).getD (byteLength after)
      let (word, behind) ← splitAt? wordEnd after
      if word.isEmpty || !startsWith ['\x7d'] behind then
        some (.next (out ++ before ++ fieldOpening) after)
      else
        let (_, behind) ← splitAt? (wordEnd + 1) after
        some (.next (out ++ before ++ fieldText value word) behind)

/-- What is put out by `count` rounds at most: nothing if they do not come to an end. -/
def search (value : Value) : Nat -> List Char -> List Char -> Option (List Char)
  | 0, _, _ => none
  | count + 1, out, rest => do
      match ← round value out rest with
      | .finished out => some out
      | .next out rest => search value count out rest

/-! ## Texts in which no field begins -/

theorem fillFields_cons_of_none (value : Value) {c : Char} {text : List Char}
    (h : fieldWord? (c :: text) = none) :
    fillFields value (c :: text) = c :: fillFields value text := by
  rw [fillFields, fillFieldsFrom, h]
  rfl

theorem fillFields_append_of_none (value : Value) {front text : List Char}
    (h : forall back, back <:+ front -> back ≠ [] -> fieldWord? (back ++ text) = none) :
    fillFields value (front ++ text) = front ++ fillFields value text := by
  induction front with
  | nil => rfl
  | cons c front ih =>
      have hfront := ih fun back hback => h back (hback.trans (List.suffix_cons c front))
      have hnone := h (c :: front) (List.suffix_refl _) (List.cons_ne_nil c front)
      rw [List.cons_append] at hnone ⊢
      rw [fillFields_cons_of_none value hnone, hfront]
      rfl

theorem fieldWord?_of_not_prefix {text : List Char} (h : ¬ fieldOpening <+: text) :
    fieldWord? text = none := by
  rw [fieldWord?, after?_eq_none_iff.2 h]

/-- Where an opening begins, no other one does before it ends. -/
theorem fillFields_opening (value : Value) {after : List Char}
    (h : fieldWord? (fieldOpening ++ after) = none) :
    fillFields value (fieldOpening ++ after) = fieldOpening ++ fillFields value after := by
  have htail : fillFields value ("item.".toList ++ after) =
      "item.".toList ++ fillFields value after := by
    apply fillFields_append_of_none
    intro back hback hne
    rcases List.exists_cons_of_ne_nil hne with ⟨c, tail, rfl⟩
    have hc : c ≠ '\x7b' := by
      rintro rfl
      exact absurd (hback.subset List.mem_cons_self) (by decide)
    exact fieldWord?_of_not_prefix (Text.not_prefix_of_ne hc _ _)
  exact (fillFields_cons_of_none value h).trans (congrArg ('\x7b' :: ·) htail)

theorem fillFields_of_cut? (value : Value) {rest before after : List Char}
    (h : cut? fieldOpening rest = some (before, after)) :
    fillFields value rest = before ++ fillFields value (fieldOpening ++ after) := by
  rw [eq_append_of_cut? h]
  apply fillFields_append_of_none
  intro back hback hne
  exact fieldWord?_of_not_prefix (not_prefix_of_cut? h hback hne)

/-! ## One round -/

theorem fieldWord?_opening (after : List Char) :
    fieldWord? (fieldOpening ++ after) =
      if (after.takeWhile isWordChar).isEmpty ||
          !startsWith ['\x7d'] (after.dropWhile isWordChar) then none
      else some (after.takeWhile isWordChar) := by
  rw [fieldWord?, after?_append]
  dsimp only
  cases after.takeWhile isWordChar with
  | nil => rfl
  | cons c word =>
      cases after.dropWhile isWordChar with
      | nil => rfl
      | cons d behind =>
          by_cases hd : d = '\x7d'
          · subst hd
            rfl
          · have hno : startsWith ['\x7d'] (d :: behind) = false := by
              rw [startsWith, after?, if_neg (Ne.symm hd)]
              rfl
            rw [hno]
            split
            · next h => cases h
            · next h _ => exact absurd (List.cons.inj h).1 hd
            · rfl

section Round

variable (value : Value) (out : List Char) {rest before after : List Char}

theorem round_of_cut? (hcut : cut? fieldOpening rest = some (before, after)) :
    round value out rest =
      if (after.takeWhile isWordChar).isEmpty ||
          !startsWith ['\x7d'] (after.dropWhile isWordChar) then
        some (.next (out ++ before ++ fieldOpening) after)
      else
        (splitAt? (byteLength (after.takeWhile isWordChar) + 1) after).bind fun parts =>
          some (.next (out ++ before ++ fieldText value (after.takeWhile isWordChar)) parts.2) := by
  have hstart : offset? fieldOpening rest = some (byteLength before) := by
    rw [offset?, hcut]
    rfl
  have htext := eq_append_of_cut? hcut
  have hbefore : splitAt? (byteLength before) rest = some (before, fieldOpening ++ after) :=
    splitAt?_of_eq htext
  have hafter : splitAt? (byteLength before + byteLength fieldOpening) rest =
      some (before ++ fieldOpening, after) := by
    rw [← byteLength_append]
    exact splitAt?_of_eq (by rw [htext, List.append_assoc])
  have hword : splitAt? (byteLength (after.takeWhile isWordChar)) after =
      some (after.takeWhile isWordChar, after.dropWhile isWordChar) :=
    splitAt?_of_eq List.takeWhile_append_dropWhile.symm
  rw [round, hstart]
  simp only [hbefore, hafter, offsetWhere?_not, hword, Option.bind_eq_bind, Option.bind_some]

theorem round_of_opening (hcut : cut? fieldOpening rest = some (before, after))
    (h : fieldWord? (fieldOpening ++ after) = none) :
    round value out rest = some (.next (out ++ before ++ fieldOpening) after) := by
  rw [fieldWord?_opening] at h
  rw [round_of_cut? value out hcut]
  split at h
  · next hopen => rw [if_pos hopen]
  · cases h

theorem round_of_field {word left : List Char}
    (hcut : cut? fieldOpening rest = some (before, word ++ '\x7d' :: left))
    (h : fieldWord? (fieldOpening ++ (word ++ '\x7d' :: left)) = some word) :
    round value out rest = some (.next (out ++ before ++ fieldText value word) left) := by
  have hend : splitAt? (byteLength word + 1) (word ++ '\x7d' :: left) =
      some (word ++ ['\x7d'], left) := by
    have hbrace : byteLength ['\x7d'] = 1 := rfl
    rw [← hbrace, ← byteLength_append]
    exact splitAt?_of_eq (by rw [List.append_assoc]; rfl)
  rw [fieldWord?_opening] at h
  rw [round_of_cut? value out hcut]
  split at h
  · cases h
  · next hclosed =>
      rw [if_neg hclosed, Option.some.inj h, hend]
      rfl

/--
A round puts out what becomes of a front of the text and leaves a shorter text, or it finds no
opening and ends the search.
-/
theorem round_cases (rest : List Char) :
    round value out rest = some (.finished (out ++ fillFields value rest)) ∨
      exists shown left, round value out rest = some (.next (out ++ shown) left) ∧
        left.length < rest.length ∧ fillFields value rest = shown ++ fillFields value left := by
  cases hcut : cut? fieldOpening rest with
  | none =>
      left
      have hnone : Text.occursIn fieldOpening rest = false := by
        rw [Text.occursIn, hcut]
        rfl
      rw [round, offset?, hcut, fillFields_of_not_occurs value hnone]
      rfl
  | some parts =>
      right
      rcases parts with ⟨before, after⟩
      have hfill := fillFields_of_cut? value hcut
      have hlength := congrArg List.length (eq_append_of_cut? hcut)
      have hopening : fieldOpening.length = 6 := rfl
      rw [List.length_append, List.length_append] at hlength
      cases hword : fieldWord? (fieldOpening ++ after) with
      | none =>
          -- the opening is copied, and the search goes on right behind it
          refine ⟨before ++ fieldOpening, after, ?_, by omega, ?_⟩
          · rw [round_of_opening value out hcut hword, List.append_assoc]
          · rw [hfill, fillFields_opening value hword, List.append_assoc]
      | some word =>
          rcases fieldWord?_eq_some_iff.1 hword with ⟨⟨hne, hchars⟩, left, hmark⟩
          have hput := fillFields_mark value ⟨word, hne, hchars⟩ left
          rw [fieldPlaceholder, List.append_assoc, List.append_assoc, List.singleton_append]
            at hmark hput
          cases List.append_cancel_left hmark
          rw [List.length_append, List.length_cons] at hlength
          refine ⟨before ++ fieldText value word, left, ?_, by omega, ?_⟩
          · rw [round_of_field value out hcut hword, List.append_assoc]
          · rw [hfill, hput, List.append_assoc]

end Round

/-! ## The whole search -/

/-- The search comes to an end, for each round but the last leaves a shorter text. -/
theorem search_eq (value : Value) {count : Nat} {rest : List Char} (h : rest.length < count)
    (out : List Char) : search value count out rest = some (out ++ fillFields value rest) := by
  induction count generalizing rest out with
  | zero => cases h
  | succ count ih =>
      rw [search]
      rcases round_cases value out rest with hround | ⟨shown, left, hround, hlength, hfill⟩
      · rw [hround]
        rfl
      · rw [hround, Option.bind_eq_bind, Option.bind_some]
        show search value count (out ++ shown) left = _
        rw [ih (Nat.lt_of_lt_of_le hlength (Nat.le_of_lt_succ h)), hfill, List.append_assoc]

theorem fillFields_of_unclosed (value : Value) {after : List Char}
    (h : forall word : Word, ¬ word.chars ++ ['\x7d'] <+: after) :
    fillFields value (fieldOpening ++ after) = fieldOpening ++ fillFields value after := by
  apply fillFields_opening
  rw [Option.eq_none_iff_forall_ne_some]
  intro word hword
  rcases fieldWord?_eq_some_iff.1 hword with ⟨⟨hne, hchars⟩, hmark⟩
  exact h ⟨word, hne, hchars⟩ ((List.prefix_append_right_inj fieldOpening).1 hmark)

theorem Substituted.append_brace {texts : Mark -> Option (List Char)} {front shown : List Char}
    (h : Substituted texts front shown) {back out : List Char}
    (hback : Substituted texts ('\x7b' :: back) out) :
    Substituted texts (front ++ '\x7b' :: back) (shown ++ out) := by
  induction h with
  | nil => exact hback
  | mark hm _ ih =>
      rw [List.append_assoc, List.append_assoc]
      exact .mark hm ih
  | @char c rest _ hnot _ ih =>
      rw [List.cons_append, List.cons_append]
      refine .char (fun m hm hstarts => ?_) ih
      rcases m.text_eq_cons with ⟨tail, htext, htail⟩
      have hnone := hnot m hm
      rw [htext, List.cons_prefix_cons] at hstarts
      rw [htext, List.cons_prefix_cons] at hnone
      have hbrace : rest ++ ['\x7b'] <+: rest ++ '\x7b' :: back := ⟨back, by simp⟩
      rcases List.prefix_or_prefix_of_prefix hstarts.2 hbrace with hshort | hlong
      · rcases List.prefix_concat_iff.1 hshort with rfl | hrest
        · exact htail (List.mem_append_right rest List.mem_cons_self)
        · exact hnone ⟨hstarts.1, hrest⟩
      · exact htail (hlong.subset (List.mem_append_right rest List.mem_cons_self))

theorem fillFields_append_unclosed (value : Value) (before : List Char) {after : List Char}
    (h : forall word : Word, ¬ word.chars ++ ['\x7d'] <+: after) :
    fillFields value (before ++ (fieldOpening ++ after)) =
      fillFields value before ++ (fieldOpening ++ fillFields value after) := by
  have hback := substituted_fillFields value (fieldOpening ++ after)
  rw [fillFields_of_unclosed value h] at hback
  exact (substituted_fillFields value _).unique
    ((substituted_fillFields value before).append_brace hback)

theorem fieldText_cases (value : Value) (word : List Char) :
    (forall field, value.field? (String.ofList word) = some field ->
        fieldText value word = field.display.toList) ∧
      (value.field? (String.ofList word) = none ∨
          value.field? (String.ofList word) = some .null ∨ value.isObject = false ->
        fieldText value word = []) := by
  rw [fieldText]
  refine ⟨?_, ?_⟩
  · intro field hfield
    rw [hfield]
  · rintro (hnone | hnull | hother)
    · rw [hnone]
    · rw [hnull]
      rfl
    · have hnone : value.field? (String.ofList word) = none := by
        cases value with
        | object fields => cases hother
        | _ => rfl
      rw [hnone]

/--
Filling in the fields of a text replaces them all at once: from left to right, each opening that a
word follows which is closed at once, with the word and its end, and what is put in is not read.
That is what the item shows for the field, and nothing for a field that is missing or null or of no
object.  All else is copied, an opening too that no closed word follows.  The search from opening to
opening ends on every text, and puts out the same.
-/
theorem fillFields_replaces (value : Value) (text : List Char) :
    (forall out, Substituted (fieldTexts value) text out ↔ out = fillFields value text) ∧
      (forall count, text.length < count ->
        search value count [] text = some (fillFields value text)) ∧
      (forall word : Word,
        (forall field, value.field? (String.ofList word.chars) = some field ->
          fieldTexts value (.field word) = some field.display.toList) ∧
        (value.field? (String.ofList word.chars) = none ∨
            value.field? (String.ofList word.chars) = some .null ∨ value.isObject = false ->
          fieldTexts value (.field word) = some [])) ∧
      (forall after : List Char, (forall word : Word, ¬ word.chars ++ ['\x7d'] <+: after) ->
        fillFields value (text ++ (fieldOpening ++ after)) =
          fillFields value text ++ (fieldOpening ++ fillFields value after)) := by
  refine ⟨?_, ?_, ?_, fun _ => fillFields_append_unclosed value text⟩
  · intro out
    constructor
    · intro h
      exact h.unique (substituted_fillFields value text)
    · rintro rfl
      exact substituted_fillFields value text
  · intro count hcount
    exact search_eq value hcount []
  · intro word
    rcases fieldText_cases value word.chars with ⟨hshown, hnothing⟩
    exact ⟨fun field hfield => congrArg some (hshown field hfield),
      fun h => congrArg some (hnothing h)⟩

/-- An empty word, a path, a cut opening, and an opening behind another one. -/
example :
    let item : Value := .object [("a", .text "x")]
    fillFields item "\x7bitem.\x7d".toList = "\x7bitem.\x7d".toList ∧
      fillFields item "\x7bitem.a.b\x7d".toList = "\x7bitem.a.b\x7d".toList ∧
      fillFields item "é\x7bitem.a".toList = "é\x7bitem.a".toList ∧
      fillFields item "\x7bitem.\x7bitem.a\x7d".toList = "\x7bitem.x".toList := by
  decide +kernel

end Placeholder
end SurfaceFeed
