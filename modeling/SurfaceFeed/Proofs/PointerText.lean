import SurfaceFeed.Proofs.Pointer

/-!
# The text of a pointer

## Slashes

The parts of a text, with a slash before each of them, are the text with a slash
before it.  So cutting at slashes and putting slashes between parts undo each
other, as long as no part has a slash of its own.

## Tildes

A text can be unescaped when each of its tildes is followed by a digit that gives
it a meaning.  A slash is none of these digits, so this can be said of the whole
text or of each of its parts.
-/

namespace SurfaceFeed

namespace Text

def slashed (parts : List (List Char)) : List Char :=
  parts.flatMap fun part => '/' :: part

@[simp] theorem slashed_cons (part : List Char) (parts : List (List Char)) :
    slashed (part :: parts) = '/' :: (part ++ slashed parts) :=
  rfl

theorem slashed_splitSlashes (text : List Char) : slashed (splitSlashes text) = '/' :: text := by
  induction text with
  | nil => rfl
  | cons c text ih =>
      rw [splitSlashes]
      split
      · next hslash => rw [slashed_cons, ih, hslash, List.nil_append]
      · cases hparts : splitSlashes text with
        | nil =>
            rw [hparts] at ih
            cases ih
        | cons part parts =>
            rw [hparts, slashed_cons] at ih
            show slashed ((c :: part) :: parts) = _
            rw [slashed_cons, List.cons_append, (List.cons.inj ih).2]

theorem splitSlashes_slashed {part : List Char} {parts : List (List Char)} (hpart : '/' ∉ part)
    (hparts : forall other, other ∈ parts -> '/' ∉ other) :
    splitSlashes (part ++ slashed parts) = part :: parts := by
  induction parts generalizing part with
  | nil => rw [slashed, List.flatMap_nil, List.append_nil, splitSlashes_of_not_mem hpart]
  | cons next parts ih =>
      have hrest := ih (hparts next List.mem_cons_self)
        fun other hother => hparts other (List.mem_cons_of_mem next hother)
      simp [splitSlashes_of_not_mem hpart, hrest]

theorem slash_not_mem_splitSlashes (text : List Char) :
    forall part, part ∈ splitSlashes text -> '/' ∉ part := by
  induction text with
  | nil =>
      intro part hpart
      rw [List.mem_singleton.1 hpart]
      exact List.not_mem_nil
  | cons c text ih =>
      intro part hpart
      rw [splitSlashes] at hpart
      split at hpart
      · rcases List.mem_cons.1 hpart with rfl | hpart
        · exact List.not_mem_nil
        · exact ih part hpart
      · next hc =>
          cases hparts : splitSlashes text with
          | nil =>
              rw [hparts] at hpart
              rw [List.mem_singleton.1 hpart, List.mem_singleton]
              exact Ne.symm hc
          | cons first parts =>
              rw [hparts] at hpart ih
              rcases List.mem_cons.1 hpart with rfl | hpart
              · exact List.not_mem_cons_of_ne_of_not_mem (Ne.symm hc) (ih first List.mem_cons_self)
              · exact ih part (List.mem_cons_of_mem first hpart)

end Text

namespace Pointer

open Text

/-! ## Tildes -/

/-- Every tilde is followed by one of the digits that give it a meaning. -/
def Escaped (text : List Char) : Prop :=
  forall front rest, text = front ++ '~' :: rest ->
    rest.head? = some '0' ∨ rest.head? = some '1'

theorem escaped_nil : Escaped [] := by
  intro front rest h
  exact absurd h.symm (List.append_ne_nil_of_right_ne_nil front (List.cons_ne_nil _ _))

theorem Escaped.tail {c : Char} {text : List Char} (h : Escaped (c :: text)) : Escaped text := by
  intro front rest htext
  exact h (c :: front) rest (congrArg (c :: ·) htext)

theorem escaped_cons {c : Char} (hc : c ≠ '~') {text : List Char} :
    Escaped (c :: text) ↔ Escaped text := by
  refine ⟨Escaped.tail, ?_⟩
  intro h front rest htext
  cases front with
  | nil => exact absurd (List.cons.inj htext).1 hc
  | cons d front => exact h front rest (List.cons.inj htext).2

theorem escaped_tilde {text : List Char} :
    Escaped ('~' :: text) ↔
      (text.head? = some '0' ∨ text.head? = some '1') ∧ Escaped text := by
  constructor
  · intro h
    exact ⟨h [] text rfl, h.tail⟩
  · intro h front rest htext
    cases front with
    | nil =>
        rw [← (List.cons.inj htext).2]
        exact h.1
    | cons d front => exact h.2 front rest (List.cons.inj htext).2

theorem escaped_append_slash {front back : List Char} :
    Escaped (front ++ '/' :: back) ↔ Escaped front ∧ Escaped back := by
  induction front with
  | nil =>
      rw [List.nil_append, escaped_cons (by decide)]
      exact ⟨fun h => ⟨escaped_nil, h⟩, And.right⟩
  | cons c front ih =>
      rw [List.cons_append]
      by_cases hc : c = '~'
      · -- what follows the tilde is in `front`, since a slash gives it no meaning
        have hnext : ((front ++ '/' :: back).head? = some '0' ∨
              (front ++ '/' :: back).head? = some '1') ↔
            front.head? = some '0' ∨ front.head? = some '1' := by
          cases front with
          | nil => simp
          | cons d front => exact Iff.rfl
        rw [hc, escaped_tilde, escaped_tilde, ih, hnext, and_assoc]
      · rw [escaped_cons hc, escaped_cons hc, ih]

theorem escaped_slashed {part : List Char} {parts : List (List Char)} :
    Escaped (part ++ slashed parts) ↔ forall other, other ∈ part :: parts -> Escaped other := by
  induction parts generalizing part with
  | nil => rw [slashed, List.flatMap_nil, List.append_nil, List.forall_mem_singleton]
  | cons next parts ih =>
      rw [slashed_cons, escaped_append_slash, ih, List.forall_mem_cons (a := part)]

theorem escaped_iff_parts {text : List Char} :
    Escaped text ↔ forall part, part ∈ splitSlashes text -> Escaped part := by
  cases hparts : splitSlashes text with
  | nil =>
      have hlength := length_splitSlashes text
      rw [hparts] at hlength
      cases hlength
  | cons part parts =>
      have htext := slashed_splitSlashes text
      rw [hparts, slashed_cons] at htext
      rw [← (List.cons.inj htext).2, escaped_slashed]

/-! ## Unescaping -/

theorem unescapeChars?_isSome_iff {text : List Char} :
    (unescapeChars? text).isSome = true ↔ Escaped text := by
  fun_induction unescapeChars? text with
  | case1 => exact ⟨fun _ => escaped_nil, fun _ => rfl⟩
  | case2 rest ih =>
      rw [Option.isSome_map, ih, escaped_tilde, escaped_cons (by decide)]
      exact ⟨fun h => ⟨Or.inl rfl, h⟩, And.right⟩
  | case3 rest ih =>
      rw [Option.isSome_map, ih, escaped_tilde, escaped_cons (by decide)]
      exact ⟨fun h => ⟨Or.inr rfl, h⟩, And.right⟩
  | case4 rest hzero hone =>
      refine ⟨nofun, ?_⟩
      intro h
      rcases (escaped_tilde.1 h).1 with hnext | hnext
      · rcases List.head?_eq_some_iff.1 hnext with ⟨more, hmore⟩
        exact absurd hmore (hzero more rfl)
      · rcases List.head?_eq_some_iff.1 hnext with ⟨more, hmore⟩
        exact absurd hmore (hone more rfl)
  | case5 c rest _ _ hc ih => rw [Option.isSome_map, ih, escaped_cons hc]

theorem unescapeChars?_eq_none_iff {text : List Char} :
    unescapeChars? text = none ↔ ¬ Escaped text := by
  rw [← unescapeChars?_isSome_iff, Option.not_isSome_iff_eq_none]

theorem escapeChars_of_unescapeChars? {text segment : List Char} (hslash : '/' ∉ text)
    (h : unescapeChars? text = some segment) : escapeChars segment = text := by
  fun_induction unescapeChars? text generalizing segment with
  | case1 =>
      cases h
      rfl
  | case2 rest ih =>
      rcases Option.map_eq_some_iff.1 h with ⟨unescaped, hrest, rfl⟩
      have hback := ih (mt (List.mem_cons_of_mem _) (mt (List.mem_cons_of_mem _) hslash)) hrest
      rw [escapeChars_cons, hback]
      rfl
  | case3 rest ih =>
      rcases Option.map_eq_some_iff.1 h with ⟨unescaped, hrest, rfl⟩
      have hback := ih (mt (List.mem_cons_of_mem _) (mt (List.mem_cons_of_mem _) hslash)) hrest
      rw [escapeChars_cons, hback]
      rfl
  | case4 rest => cases h
  | case5 c rest _ _ hc ih =>
      rcases Option.map_eq_some_iff.1 h with ⟨unescaped, hrest, rfl⟩
      rcases not_or.1 (mt List.mem_cons.2 hslash) with ⟨hc', hslash⟩
      rw [escapeChars_cons, ih hslash hrest, escapeChar, if_neg (mt beq_iff_eq.1 hc),
        if_neg (mt beq_iff_eq.1 (Ne.symm hc'))]
      rfl

/-! ## All segments -/

theorem segmentsText_eq (segments : List String) :
    segmentsText segments = slashed (segments.map fun segment => escapeChars segment.toList) := by
  induction segments with
  | nil => rfl
  | cons segment segments ih =>
      rw [segmentsText, ih, List.map_cons, slashed_cons, List.cons_append]

theorem unescapeAll_escapeChars (text : String) (segments : List String) :
    unescapeAll text (segments.map fun segment => escapeChars segment.toList) = .ok segments := by
  induction segments with
  | nil => rfl
  | cons segment segments ih =>
      rw [List.map_cons, unescapeAll, unescapeChars?_escapeChars, ih]
      show Except.ok (String.ofList segment.toList :: segments) = _
      rw [String.ofList_toList]

theorem escapeChars_of_unescapeAll {text : String} {parts : List (List Char)}
    {segments : List String} (hslash : forall part, part ∈ parts -> '/' ∉ part)
    (h : unescapeAll text parts = .ok segments) :
    (segments.map fun segment => escapeChars segment.toList) = parts := by
  induction parts generalizing segments with
  | nil =>
      cases h
      rfl
  | cons part parts ih =>
      rw [unescapeAll] at h
      cases hpart : unescapeChars? part with
      | none =>
          rw [hpart] at h
          cases h
      | some first =>
          rw [hpart] at h
          cases hrest : unescapeAll text parts with
          | error e =>
              rw [hrest] at h
              cases h
          | ok rest =>
              rw [hrest] at h
              cases h
              rw [List.map_cons, String.toList_ofList,
                escapeChars_of_unescapeChars? (hslash part List.mem_cons_self) hpart,
                ih (fun other hother => hslash other (List.mem_cons_of_mem part hother)) hrest]

/-- The parts of a text can be unescaped, or the first one that cannot be is named. -/
theorem unescapeAll_cases (text : String) (parts : List (List Char)) :
    ((forall part, part ∈ parts -> Escaped part) ∧
        exists segments, unescapeAll text parts = .ok segments) ∨
      exists front part back, parts = front ++ part :: back ∧
        (forall other, other ∈ front -> Escaped other) ∧ ¬ Escaped part ∧
        unescapeAll text parts = .error (.invalidEscape text (String.ofList part)) := by
  induction parts with
  | nil => exact Or.inl ⟨nofun, [], rfl⟩
  | cons part parts ih =>
      rw [unescapeAll]
      cases hpart : unescapeChars? part with
      | none =>
          exact Or.inr ⟨[], part, parts, rfl, nofun, unescapeChars?_eq_none_iff.1 hpart, rfl⟩
      | some first =>
          have hescaped : Escaped part := by
            rw [← unescapeChars?_isSome_iff, hpart]
            rfl
          rcases ih with ⟨hall, segments, hsegments⟩ | ⟨front, bad, back, rfl, hall, hbad, herror⟩
          · rw [hsegments]
            exact Or.inl ⟨List.forall_mem_cons.2 ⟨hescaped, hall⟩, _, rfl⟩
          · rw [herror]
            exact Or.inr ⟨part :: front, bad, back, rfl,
              List.forall_mem_cons.2 ⟨hescaped, hall⟩, hbad, rfl⟩

/-! ## Whole texts -/

theorem foldl_push (p : Pointer) (segments : List String) :
    segments.foldl push p = ⟨p.segments ++ segments⟩ := by
  induction segments generalizing p with
  | nil => rw [List.foldl_nil, List.append_nil]
  | cons segment segments ih =>
      rw [List.foldl_cons, ih, push, List.append_assoc, List.singleton_append]

theorem parse_of_no_slash {text : String} (htext : text ≠ "")
    (h : ¬ exists rest, text.toList = '/' :: rest) :
    parse text = .error (.noLeadingSlash text) := by
  rw [parse]
  split
  · next hnil => exact absurd (String.toList_eq_nil_iff.1 hnil) htext
  · next hslash => exact absurd ⟨[], hslash⟩ h
  · next c rest _ hcons =>
      rw [if_neg]
      intro hc
      rw [hc] at hcons
      exact h ⟨rest, hcons⟩

theorem parse_slash_cases {text : String} {rest : List Char} (h : text.toList = '/' :: rest) :
    (rest = [] ∧ parse text = .ok root) ∨
      (rest ≠ [] ∧ parse text = (unescapeAll text (splitSlashes rest)).map Pointer.mk) := by
  by_cases hrest : rest = []
  · refine Or.inl ⟨hrest, ?_⟩
    rw [parse, h, hrest]
    rfl
  · exact Or.inr ⟨hrest, parse_eq h hrest⟩

theorem parse_of_slash {text : String} {rest : List Char} (h : text.toList = '/' :: rest) :
    (Escaped text.toList ∧ exists p, parse text = .ok p) ∨
      exists front part back, splitSlashes rest = front ++ part :: back ∧
        (forall other, other ∈ front -> Escaped other) ∧ ¬ Escaped part ∧
        parse text = .error (.invalidEscape text (String.ofList part)) := by
  rcases parse_slash_cases h with ⟨hrest, hparse⟩ | ⟨_, hparse⟩
  · refine Or.inl ⟨?_, root, hparse⟩
    rw [h, hrest, escaped_cons (by decide)]
    exact escaped_nil
  · rcases unescapeAll_cases text (splitSlashes rest) with ⟨hall, segments, hsegments⟩ | hbad
    · rw [hsegments] at hparse
      refine Or.inl ⟨?_, ⟨segments⟩, hparse⟩
      rw [h, escaped_cons (by decide), escaped_iff_parts]
      exact hall
    · rcases hbad with ⟨front, part, back, hparts, hfront, hpart, herror⟩
      rw [herror] at hparse
      exact Or.inr ⟨front, part, back, hparts, hfront, hpart, hparse⟩

theorem toText_of_parse {text : String} {p : Pointer} (h : parse text = .ok p) :
    p.toText = if text = "" then "/" else text := by
  by_cases hempty : text = ""
  · rw [if_pos hempty]
    rw [hempty] at h
    cases h
    rfl
  · rw [if_neg hempty]
    by_cases hslash : exists rest, text.toList = '/' :: rest
    · rcases hslash with ⟨rest, htext⟩
      rcases parse_slash_cases htext with ⟨rfl, hroot⟩ | ⟨hrest, hparse⟩
      · rw [h] at hroot
        cases hroot
        exact String.toList_injective htext.symm
      · rw [h] at hparse
        cases hsegments : unescapeAll text (splitSlashes rest) with
        | error e =>
            rw [hsegments] at hparse
            cases hparse
        | ok segments =>
            rw [hsegments] at hparse
            cases hparse
            have hparts := escapeChars_of_unescapeAll (slash_not_mem_splitSlashes rest) hsegments
            have hwhole : segmentsText segments = text.toList := by
              rw [segmentsText_eq, hparts, slashed_splitSlashes, htext]
            rw [toText, hwhole, String.ofList_toList]
            cases segments with
            | nil =>
                rw [htext] at hwhole
                cases hwhole
            | cons segment segments => rfl
    · rw [parse_of_no_slash hempty hslash] at h
      cases h

theorem parse_toText {segments : List String} (h : segments ≠ [""]) :
    parse (Pointer.mk segments).toText = .ok ⟨segments⟩ := by
  cases segments with
  | nil => rfl
  | cons segment segments =>
      have htext : ((Pointer.mk (segment :: segments)).toText).toList =
          '/' :: (escapeChars segment.toList ++
            slashed (segments.map fun segment => escapeChars segment.toList)) := by
        show (String.ofList (segmentsText (segment :: segments))).toList = _
        rw [String.toList_ofList, segmentsText_eq, List.map_cons, slashed_cons]
      rcases parse_slash_cases htext with ⟨hrest, _⟩ | ⟨_, hparse⟩
      · -- the text would be a lone slash, so the one segment would be empty
        rcases List.append_eq_nil_iff.1 hrest with ⟨hsegment, hsegments⟩
        have hback := unescapeChars?_escapeChars segment.toList
        rw [hsegment] at hback
        have hempty : segment = "" := String.toList_injective (Option.some.inj hback).symm
        cases segments with
        | nil => exact absurd (by rw [hempty]) h
        | cons => cases hsegments
      · have hslash : forall part,
            part ∈ segments.map (fun segment => escapeChars segment.toList) -> '/' ∉ part := by
          intro part hpart
          rcases List.mem_map.1 hpart with ⟨other, _, rfl⟩
          exact slash_not_mem_escapeChars other.toList
        rw [hparse, splitSlashes_slashed (slash_not_mem_escapeChars segment.toList) hslash]
        have hall := unescapeAll_escapeChars (Pointer.mk (segment :: segments)).toText
          (segment :: segments)
        rw [List.map_cons] at hall
        rw [hall]
        rfl

/--
The grammar of pointers.  A text is read just if it is empty, or starts with a
slash and gives every tilde a meaning; each other text has the error of the rule
that it breaks first.  What was read is written as it was, and what is written is
read again, but for the pointer to the field without a name, which is written
like the root.
-/
theorem parse_text (text : String) :
    ((exists p, parse text = .ok p) ↔
      text = "" ∨ (exists rest, text.toList = '/' :: rest) ∧ Escaped text.toList) ∧
    (text ≠ "" -> (¬ exists rest, text.toList = '/' :: rest) ->
      parse text = .error (.noLeadingSlash text)) ∧
    (forall rest, text.toList = '/' :: rest -> ¬ Escaped text.toList ->
      exists front part back, splitSlashes rest = front ++ part :: back ∧
        (forall other, other ∈ front -> Escaped other) ∧ ¬ Escaped part ∧
        parse text = .error (.invalidEscape text (String.ofList part))) ∧
    (forall p, parse text = .ok p -> p.toText = if text = "" then "/" else text) ∧
    forall segments, segments ≠ [""] ->
      segments.foldl push root = ⟨segments⟩ ∧
        parse (segments.foldl push root).toText = .ok ⟨segments⟩ := by
  refine ⟨?_, parse_of_no_slash, ?_, fun p => toText_of_parse, ?_⟩
  · constructor
    · intro h
      rcases h with ⟨p, hp⟩
      by_cases hempty : text = ""
      · exact Or.inl hempty
      · by_cases hslash : exists rest, text.toList = '/' :: rest
        · refine Or.inr ⟨hslash, ?_⟩
          rcases hslash with ⟨rest, htext⟩
          rcases parse_of_slash htext with hread | ⟨_, _, _, _, _, _, herror⟩
          · exact hread.1
          · rw [hp] at herror
            cases herror
        · rw [parse_of_no_slash hempty hslash] at hp
          cases hp
    · intro h
      rcases h with rfl | ⟨⟨rest, htext⟩, hescaped⟩
      · exact ⟨root, rfl⟩
      · rcases parse_of_slash htext with hread | ⟨front, part, back, hparts, _, hpart, _⟩
        · exact hread.2
        · rw [htext, escaped_cons (by decide), escaped_iff_parts, hparts] at hescaped
          exact absurd (hescaped part List.mem_append_cons_self) hpart
  · intro rest htext hnot
    rcases parse_of_slash htext with hread | hbad
    · exact absurd hread.1 hnot
    · exact hbad
  · intro segments hsegments
    have hpush : segments.foldl push root = ⟨segments⟩ := foldl_push root segments
    rw [hpush]
    exact ⟨rfl, parse_toText hsegments⟩

theorem parse_text_of_escapes :
    (exists p, parse "/~01~1" = .ok p ∧ p.toText = "/~01~1") ∧
    ("/~01~1".toList = '/' :: "~01~1".toList ∧ Escaped "/~01~1".toList) ∧
    ("/a/~2".toList = '/' :: "a/~2".toList ∧ ¬ Escaped "/a/~2".toList ∧
      exists part, parse "/a/~2" = .error (.invalidEscape "/a/~2" part)) ∧
    ("a~2" ≠ "" ∧ (¬ exists rest, "a~2".toList = '/' :: rest) ∧
      parse "a~2" = .error (.noLeadingSlash "a~2")) ∧
    (["", "~1"] ≠ [""] ∧
      parse (["", "~1"].foldl push root).toText = .ok ⟨["", "~1"]⟩) := by
  have hread : parse "/~01~1" = .ok ⟨["~1/"]⟩ := rfl
  have hgood := ((parse_text "/~01~1").1.1 ⟨_, hread⟩).resolve_left (by decide)
  have hslash : "/a/~2".toList = '/' :: "a/~2".toList := rfl
  have hbad : ¬ Escaped "/a/~2".toList := by
    intro h
    have hnext := h ['/', 'a', '/'] ['2'] rfl
    revert hnext
    decide
  have hname : ¬ exists rest, "a~2".toList = '/' :: rest := by
    intro h
    rcases h with ⟨rest, hrest⟩
    have ha : 'a' = '/' := (List.cons.inj hrest).1
    revert ha
    decide
  refine ⟨⟨_, hread, (parse_text "/~01~1").2.2.2.1 _ hread⟩, ⟨rfl, hgood.2⟩,
    ⟨hslash, hbad, ?_⟩, ⟨by decide, hname, (parse_text "a~2").2.1 (by decide) hname⟩,
    by decide, ((parse_text "").2.2.2.2 ["", "~1"] (by decide)).2⟩
  rcases (parse_text "/a/~2").2.2.1 _ hslash hbad with ⟨_, part, _, _, _, _, herror⟩
  exact ⟨String.ofList part, herror⟩

end Pointer
end SurfaceFeed
