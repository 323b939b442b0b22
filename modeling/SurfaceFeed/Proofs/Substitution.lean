import SurfaceFeed.Proofs.Placeholder
import SurfaceFeed.Proofs.Text.Replacement

/-!
# Placeholders at once and in turn

## One pass

A pass over a template replaces each placeholder of a kind at once: it goes from
left to right, does not read what it puts in, and copies all else.

## Three passes

The fields are put in first, then the positions, then the items, and each pass
reads what the one before it put in.  That is the same as putting in all three at
once as long as no pass brings in a placeholder of a later one.
-/

namespace SurfaceFeed

namespace Placeholder

open Text

/-! ## The placeholders -/

structure Word where
  chars : List Char
  ne_nil : chars ≠ []
  isWordChar : forall c, c ∈ chars -> isWordChar c = true

inductive Mark where
  | field (word : Word)
  | index
  | item

namespace Mark

def text : Mark -> List Char
  | field word => fieldPlaceholder word.chars
  | index => Placeholder.index
  | item => Placeholder.item

theorem text_eq_cons (m : Mark) : exists tail, m.text = '\x7b' :: tail ∧ '\x7b' ∉ tail := by
  cases m with
  | index => exact ⟨_, rfl, by decide⟩
  | item => exact ⟨_, rfl, by decide⟩
  | field word =>
      refine ⟨"item.".toList ++ (word.chars ++ ['\x7d']), rfl, ?_⟩
      have hword : '\x7b' ∉ word.chars := fun hmem => nomatch word.isWordChar _ hmem
      rw [List.mem_append, List.mem_append, not_or, not_or]
      exact ⟨by decide, hword, by decide⟩

theorem headed (m : Mark) : Headed m.text :=
  ⟨'\x7b', m.text_eq_cons⟩

theorem not_prefix_of_ne (m : Mark) {c : Char} (hc : c ≠ '\x7b') (text : List Char) :
    ¬ m.text <+: c :: text := by
  rcases m.text_eq_cons with ⟨tail, htext, _⟩
  rw [htext]
  exact Text.not_prefix_of_ne hc tail text

theorem headed_index : Headed Placeholder.index :=
  index.headed

theorem headed_item : Headed Placeholder.item :=
  item.headed

def opening : Mark -> List Char
  | field _ => fieldOpening
  | index => "\x7bindex".toList
  | item => Placeholder.item

theorem opening_eq {m : Mark} {text : List Char} (h : m.text <+: text) :
    m.opening = text.take 6 := by
  rcases h with ⟨rest, rfl⟩
  cases m <;> rfl

theorem eq_of_starts {a b : Mark} {text : List Char} (ha : a.text <+: text)
    (hb : b.text <+: text) : a = b := by
  have hopening : a.opening = b.opening := (opening_eq ha).trans (opening_eq hb).symm
  have hindex : fieldOpening ≠ "\x7bindex".toList := by decide
  have hitem : fieldOpening ≠ Placeholder.item := by decide
  have hboth : "\x7bindex".toList ≠ Placeholder.item := by decide
  cases a with
  | field word =>
      cases b with
      | field other =>
          have hword := fieldWord?_eq_some_iff.2 ⟨⟨word.ne_nil, word.isWordChar⟩, ha⟩
          have hother := fieldWord?_eq_some_iff.2 ⟨⟨other.ne_nil, other.isWordChar⟩, hb⟩
          cases word
          cases other
          cases Option.some.inj (hword.symm.trans hother)
          rfl
      | index => exact absurd hopening hindex
      | item => exact absurd hopening hitem
  | index =>
      cases b with
      | field other => exact absurd hopening.symm hindex
      | index => rfl
      | item => exact absurd hopening hboth
  | item =>
      cases b with
      | field other => exact absurd hopening.symm hitem
      | index => exact absurd hopening.symm hboth
      | item => rfl

theorem occurrences_append {m other : Mark} (h : other ≠ m) (text : List Char) :
    occurrences m.text (other.text ++ text) = occurrences m.text text := by
  rcases m.text_eq_cons with ⟨tail, htext, _⟩
  rcases other.text_eq_cons with ⟨rest, hother, hrest⟩
  have hnot : ¬ m.text <+: other.text ++ text := fun hm =>
    h (eq_of_starts (List.prefix_append _ _) hm)
  rw [hother, List.cons_append] at hnot ⊢
  rw [occurrences_of_not_starts hnot, htext, occurrences_append_of_not_mem hrest]

end Mark

/-! ## One pass -/

/--
What a template becomes when each placeholder that has a text is replaced by it at once: what is
put in is not read, and all else is copied.
-/
inductive Substituted (texts : Mark -> Option (List Char)) : List Char -> List Char -> Prop where
  | nil : Substituted texts [] []
  | mark {m : Mark} {shown rest out : List Char} :
      texts m = some shown -> Substituted texts rest out ->
      Substituted texts (m.text ++ rest) (shown ++ out)
  | char {c : Char} {rest out : List Char} :
      (forall m, texts m ≠ none -> ¬ m.text <+: c :: rest) -> Substituted texts rest out ->
      Substituted texts (c :: rest) (c :: out)

section Pass

variable {texts : Mark -> Option (List Char)}

theorem exists_substituted (texts : Mark -> Option (List Char)) (template : List Char) :
    exists out, Substituted texts template out := by
  induction hlength : template.length using Nat.strongRecOn generalizing template with
  | ind n ih =>
      subst hlength
      cases template with
      | nil => exact ⟨[], .nil⟩
      | cons c rest =>
          by_cases hmark : exists m, texts m ≠ none ∧ m.text <+: c :: rest
          · rcases hmark with ⟨m, hm, after, htext⟩
            rcases Option.ne_none_iff_exists'.1 hm with ⟨shown, hshown⟩
            have hpos := List.length_pos_iff.2 m.headed.ne_nil
            have hlt : after.length < (c :: rest).length := by
              rw [← htext, List.length_append]
              omega
            rcases ih _ hlt after rfl with ⟨out, hout⟩
            rw [← htext]
            exact ⟨shown ++ out, .mark hshown hout⟩
          · rcases ih _ (Nat.lt_succ_self _) rest rfl with ⟨out, hout⟩
            exact ⟨c :: out, .char (fun m hm hstarts => hmark ⟨m, hm, hstarts⟩) hout⟩

theorem Substituted.unique {template out other : List Char} (h : Substituted texts template out)
    (hother : Substituted texts template other) : out = other := by
  induction h generalizing other with
  | nil =>
      generalize htext : ([] : List Char) = text at hother
      cases hother with
      | nil => rfl
      | @mark m _ _ _ _ _ => exact absurd (List.append_eq_nil_iff.1 htext.symm).1 m.headed.ne_nil
      | char _ _ => cases htext
  | @mark m shown rest out hm hrest ih =>
      generalize htext : m.text ++ rest = text at hother
      have hstarts : m.text <+: text := ⟨rest, htext⟩
      cases hother with
      | nil => exact absurd (List.append_eq_nil_iff.1 htext).1 m.headed.ne_nil
      | @mark m' shown' rest' out' hm' hrest' =>
          cases Mark.eq_of_starts hstarts (List.prefix_append _ _)
          cases Option.some.inj (hm.symm.trans hm')
          cases List.append_cancel_left htext
          rw [ih hrest']
      | char hnot _ => exact absurd hstarts (hnot m (by rw [hm]; exact nofun))
  | @char c rest out hnot hrest ih =>
      generalize htext : c :: rest = text at hother hnot
      cases hother with
      | nil => cases htext
      | @mark m _ rest' _ hm _ =>
          exact absurd (List.prefix_append _ _) (hnot m (by rw [hm]; exact nofun))
      | char _ hrest' =>
          cases htext
          rw [ih hrest']

theorem substituted_self {template : List Char} (h : forall m : Mark, ¬ m.text <:+: template) :
    Substituted texts template template := by
  induction template with
  | nil => exact .nil
  | cons c rest ih =>
      have hrest := ih fun m hm => h m (hm.trans (List.suffix_cons c rest).isInfix)
      exact .char (fun m _ hstarts => h m hstarts.isInfix) hrest

theorem Substituted.copy {m : Mark} (hm : texts m = none) {rest out : List Char}
    (h : Substituted texts rest out) : Substituted texts (m.text ++ rest) (m.text ++ out) := by
  have hself : forall m', texts m' ≠ none -> ¬ m'.text <+: m.text ++ rest := by
    intro m' hm' hstarts
    cases Mark.eq_of_starts hstarts (List.prefix_append _ _)
    exact hm' hm
  rcases m.text_eq_cons with ⟨tail, htext, htail⟩
  have hcopy : Substituted texts (tail ++ rest) (tail ++ out) := by
    clear htext
    induction tail with
    | nil => exact h
    | cons c tail ih =>
        rcases not_or.1 (mt List.mem_cons.2 htail) with ⟨hc, hrest⟩
        exact .char (fun m' _ => m'.not_prefix_of_ne (Ne.symm hc) _) (ih hrest)
  rw [htext] at hself ⊢
  exact .char hself hcopy

theorem substituted_replaceAll {m : Mark} {shown : List Char} (hm : texts m = some shown)
    (honly : forall other, texts other ≠ none -> other = m) (template : List Char) :
    Substituted texts template (replaceAll m.text shown template) := by
  rcases exists_substituted texts template with ⟨out, h⟩
  suffices hout : replaceAll m.text shown template = out by
    rw [hout]
    exact h
  induction h with
  | nil => rfl
  | @mark other _ rest out hother _ ih =>
      cases honly other (by rw [hother]; exact nofun)
      cases Option.some.inj (hm.symm.trans hother)
      rw [replaceAll_append_self m.headed.ne_nil, ih]
  | char hnot _ ih =>
      rw [replaceAll_of_not_starts (hnot m (by rw [hm]; exact nofun)), ih]

/--
With one more placeholder looked for, what comes out is what an earlier pass without it left, where
all of these placeholders are replaced but those that this pass brought in.
-/
theorem Substituted.exists_earlier {m : Mark} {shown : List Char} {both : Mark -> Option (List Char)}
    (hm : texts m = none) (hshown : both m = some shown)
    (hother : forall other, other ≠ m -> both other = texts other) {template out : List Char}
    (h : Substituted both template out) :
    exists earlier n, Substituted texts template earlier ∧
      occurrences m.text earlier = occurrences m.text template + n ∧
      ReplacedBut m.text shown n earlier out := by
  induction h with
  | nil => exact ⟨[], 0, .nil, rfl, .nil⟩
  | @mark found put rest out hfound _ ih =>
      rcases ih with ⟨earlier, n, hearlier, hcount, hbut⟩
      by_cases hsame : found = m
      · subst hsame
        cases Option.some.inj (hshown.symm.trans hfound)
        refine ⟨found.text ++ earlier, n, hearlier.copy hm, ?_, hbut.put⟩
        rw [found.headed.occurrences_append_self, found.headed.occurrences_append_self, hcount]
        omega
      · have hput : texts found = some put := (hother found hsame).symm.trans hfound
        rcases hbut.append m.headed put with ⟨more, hmore, hbut'⟩
        refine ⟨put ++ earlier, n + more, .mark hput hearlier, ?_, hbut'⟩
        rw [Mark.occurrences_append hsame, hmore, hcount, Nat.add_assoc]
  | @char c rest out hnot _ ih =>
      rcases ih with ⟨earlier, n, hearlier, hcount, hbut⟩
      have hstarts : ¬ m.text <+: c :: rest := hnot m (by rw [hshown]; exact nofun)
      have hfewer : forall other, texts other ≠ none -> ¬ other.text <+: c :: rest := by
        intro other hsome
        by_cases hsame : other = m
        · rw [hsame, hm] at hsome
          exact absurd rfl hsome
        · rw [← hother other hsame] at hsome
          exact hnot other hsome
      rcases hbut.cons m.headed c with ⟨more, hmore, hbut'⟩
      refine ⟨c :: earlier, n + more, .char hfewer hearlier, ?_, hbut'⟩
      rw [occurrences_of_not_starts hstarts, hmore, hcount, Nat.add_assoc]

theorem Substituted.occurrences_le {m : Mark} (hm : texts m = none) {template out : List Char}
    (h : Substituted texts template out) :
    occurrences m.text template ≤ occurrences m.text out := by
  classical
  let both : Mark -> Option (List Char) := fun other => if other = m then some [] else texts other
  rcases exists_substituted both template with ⟨whole, hwhole⟩
  have hshown : both m = some [] := if_pos rfl
  have hother : forall other, other ≠ m -> both other = texts other := fun _ hne => if_neg hne
  rcases hwhole.exists_earlier hm hshown hother with ⟨earlier, n, hearlier, hcount, _⟩
  rw [h.unique hearlier, hcount]
  exact Nat.le_add_right _ _

end Pass

/-! ## Fields -/

def fieldTexts (value : Value) : Mark -> Option (List Char)
  | .field word => some (fieldText value word.chars)
  | _ => none

theorem fillFieldsFrom_length (value : Value) (front text : List Char) :
    fillFieldsFrom value front.length (front ++ text) = fillFields value text := by
  induction front with
  | nil => rfl
  | cons c front ih => exact ih

theorem fillFields_mark (value : Value) (word : Word) (text : List Char) :
    fillFields value (fieldPlaceholder word.chars ++ text) =
      fieldText value word.chars ++ fillFields value text := by
  have hword : fieldWord? (fieldPlaceholder word.chars ++ text) = some word.chars :=
    fieldWord?_eq_some_iff.2 ⟨⟨word.ne_nil, word.isWordChar⟩, List.prefix_append _ _⟩
  have hlength := length_fieldPlaceholder word.chars
  rcases (Mark.field word).text_eq_cons with ⟨tail, htext, _⟩
  have htext : fieldPlaceholder word.chars = '\x7b' :: tail := htext
  rw [htext, List.length_cons] at hlength
  rw [htext, List.cons_append] at hword ⊢
  rw [fillFields, fillFieldsFrom, hword]
  dsimp only
  rw [← hlength]
  exact congrArg (fieldText value word.chars ++ ·) (fillFieldsFrom_length value tail text)

theorem substituted_fillFields (value : Value) (template : List Char) :
    Substituted (fieldTexts value) template (fillFields value template) := by
  rcases exists_substituted (fieldTexts value) template with ⟨out, h⟩
  suffices hout : fillFields value template = out by
    rw [hout]
    exact h
  induction h with
  | nil => rfl
  | @mark m _ rest out hm _ ih =>
      cases m with
      | field word =>
          cases Option.some.inj hm
          rw [Mark.text, fillFields_mark, ih]
      | index => cases hm
      | item => cases hm
  | @char c rest out hnot _ ih =>
      have hword : fieldWord? (c :: rest) = none := by
        rw [Option.eq_none_iff_forall_ne_some]
        intro word hword
        rcases fieldWord?_eq_some_iff.1 hword with ⟨⟨hne, hchars⟩, hstarts⟩
        exact hnot (.field ⟨word, hne, hchars⟩) nofun hstarts
      rw [fillFields, fillFieldsFrom, hword]
      exact congrArg (c :: ·) ih

/-! ## All placeholders -/

def indexTexts (position : Nat) : Mark -> Option (List Char)
  | .index => some (Nat.toDigits 10 position)
  | _ => none

def itemTexts (value : Value) : Mark -> Option (List Char)
  | .item => some value.display.toList
  | _ => none

def earlierTexts (value : Value) (position : Nat) (m : Mark) : Option (List Char) :=
  (fieldTexts value m).or (indexTexts position m)

/-- What is put in for an item at a position of its list. -/
def allTexts (value : Value) (position : Nat) (m : Mark) : Option (List Char) :=
  (earlierTexts value position m).or (itemTexts value m)

section Fill

variable (value : Value) (position : Nat)

theorem substituted_indices (template : List Char) :
    Substituted (indexTexts position) template
      (replaceAll index (Nat.toDigits 10 position) template) := by
  refine substituted_replaceAll (m := .index) rfl ?_ template
  intro other hother
  cases other with
  | index => rfl
  | field word => exact absurd rfl hother
  | item => exact absurd rfl hother

theorem substituted_items (template : List Char) :
    Substituted (itemTexts value) template (replaceAll item value.display.toList template) := by
  refine substituted_replaceAll (m := .item) rfl ?_ template
  intro other hother
  cases other with
  | item => rfl
  | field word => exact absurd rfl hother
  | index => exact absurd rfl hother

theorem toList_fill (template : String) :
    (fill value position template).toList =
      replaceAll item value.display.toList
        (replaceAll index (Nat.toDigits 10 position) (fillFields value template.toList)) :=
  String.toList_ofList

theorem fill_of_unmarked {template : String} (h : forall m : Mark, ¬ m.text <:+: template.toList) :
    fill value position template = template := by
  apply String.toList_injective
  rw [toList_fill, (substituted_fillFields value _).unique (substituted_self h),
    (substituted_indices position _).unique (substituted_self h),
    (substituted_items value _).unique (substituted_self h)]

omit value position in
theorem not_infix_of_plain {text : String} (h : occursIn text = false) (m : Mark) :
    ¬ m.text <:+: text.toList := by
  rw [occursIn, Bool.or_eq_false_iff, Bool.or_eq_false_iff] at h
  rcases h with ⟨⟨hfield, hindex⟩, hitem⟩
  cases m with
  | index => exact occursIn_eq_false_iff.1 hindex
  | item => exact occursIn_eq_false_iff.1 hitem
  | field word =>
      have hopening : fieldOpening <+: fieldPlaceholder word.chars := List.prefix_append _ _
      exact fun hword => occursIn_eq_false_iff.1 hfield (hopening.isInfix.trans hword)

theorem exists_digit : exists d, d ∈ Nat.toDigits 10 position ∧ d ∉ index ∧ d ∉ item := by
  rcases List.exists_mem_of_ne_nil _ (Nat.toDigits_ne_nil (n := position) (b := 10)) with ⟨d, hd⟩
  have hdigit : d.isDigit = true := Nat.isDigit_of_mem_toDigits (by decide) (by decide) hd
  have hnot : forall {text : List Char}, text.all (fun c => !c.isDigit) = true -> d ∉ text := by
    intro text hall hmem
    rw [List.all_eq_true] at hall
    have hno := hall d hmem
    rw [hdigit] at hno
    cases hno
  exact ⟨d, hd, hnot (by decide), hnot (by decide)⟩

section Passes

variable {value position} {text both all : List Char}

theorem exists_missed_index (h : Substituted (earlierTexts value position) text both) :
    exists n, occurrences index (fillFields value text) = occurrences index text + n ∧
      ReplacedBut index (Nat.toDigits 10 position) n (fillFields value text) both := by
  have hother : forall other, other ≠ Mark.index ->
      earlierTexts value position other = fieldTexts value other := by
    intro other hne
    cases other with
    | index => exact absurd rfl hne
    | field word => rfl
    | item => rfl
  rcases h.exists_earlier (m := .index) rfl rfl hother with ⟨fields, n, hfields, hcount, hbut⟩
  cases hfields.unique (substituted_fillFields value text)
  exact ⟨n, hcount, hbut⟩

theorem exists_missed_item (hboth : Substituted (earlierTexts value position) text both)
    (hall : Substituted (allTexts value position) text all) :
    exists n, occurrences item both = occurrences item text + n ∧
      ReplacedBut item value.display.toList n both all := by
  have hother : forall other, other ≠ Mark.item ->
      allTexts value position other = earlierTexts value position other := by
    intro other hne
    cases other with
    | item => exact absurd rfl hne
    | field word => rfl
    | index => rfl
  rcases hall.exists_earlier (m := .item) rfl rfl hother with ⟨earlier, n, hearlier, hcount, hbut⟩
  cases hearlier.unique hboth
  exact ⟨n, hcount, hbut⟩

end Passes

theorem occurrences_item_le (text : List Char) :
    occurrences item text ≤
      occurrences item (replaceAll index (Nat.toDigits 10 position) (fillFields value text)) :=
  Nat.le_trans ((substituted_fillFields value text).occurrences_le (m := .item) rfl)
    ((substituted_indices position _).occurrences_le (m := .item) rfl)

/--
The digits of a position that a field brings in stay to the end: no later pass takes them away, and
what it puts in is put in at once as well.
-/
theorem eq_zero_of_fill_eq {text both all : List Char} {n : Nat}
    (hboth : Substituted (earlierTexts value position) text both)
    (hall : Substituted (allTexts value position) text all)
    (hbut : ReplacedBut index (Nat.toDigits 10 position) n (fillFields value text) both)
    (heq : replaceAll item value.display.toList
      (replaceAll index (Nat.toDigits 10 position) (fillFields value text)) = all) : n = 0 := by
  rcases exists_digit position with ⟨d, hd, hindex, hitem⟩
  rcases exists_missed_item hboth hall with ⟨missed, hcount, hmissed⟩
  have hadd : forall a b : List Char, (a ++ b).count d = a.count d + b.count d :=
    fun _ _ => List.count_append
  have hle := Nat.mul_le_mul_right (value.display.toList.count d)
    (occurrences_item_le value position text)
  have hindices := hbut.measure_eq Mark.headed_index.ne_nil hadd
  have hitems := measure_replaceAll Mark.headed_item value.display.toList
    (replaceAll index (Nat.toDigits 10 position) (fillFields value text)) hadd
  have hfewer := hmissed.measure_eq Mark.headed_item.ne_nil hadd
  have hwhole := measure_replaceAll Mark.headed_item value.display.toList both hadd
  rw [List.count_eq_zero.2 hindex, Nat.mul_zero, Nat.add_zero] at hindices
  rw [List.count_eq_zero.2 hitem, Nat.mul_zero, Nat.add_zero] at hitems hfewer hwhole
  rw [heq] at hitems
  rw [hcount, Nat.add_mul] at hwhole
  have hzero : n * (Nat.toDigits 10 position).count d = 0 := by omega
  exact (Nat.mul_eq_zero.1 hzero).resolve_right (Nat.ne_of_gt (List.count_pos_iff.2 hd))

theorem fill_substitutes_iff (template : String) :
    Substituted (allTexts value position) template.toList (fill value position template).toList ↔
      occurrences index (fillFields value template.toList) = occurrences index template.toList ∧
        (occurrences item (replaceAll index (Nat.toDigits 10 position)
            (fillFields value template.toList)) = occurrences item template.toList ∨
          value.display.toList = item) := by
  rw [toList_fill]
  generalize template.toList = text
  rcases exists_substituted (earlierTexts value position) text with ⟨both, hboth⟩
  rcases exists_substituted (allTexts value position) text with ⟨all, hall⟩
  rcases exists_missed_index hboth with ⟨n, hindex, hbut⟩
  rcases exists_missed_item hboth hall with ⟨missed, hitem, hmissed⟩
  have hindices := hbut.replaceAll_eq_iff Mark.headed_index.ne_nil
  have hitems := hmissed.replaceAll_eq_iff Mark.headed_item.ne_nil
  constructor
  · intro hfill
    have heq := hfill.unique hall
    cases eq_zero_of_fill_eq value position hboth hall hbut heq
    rw [hindices.2 (.inl rfl)] at heq ⊢
    refine ⟨hindex, (hitems.1 heq).imp ?_ id⟩
    intro hmissed
    rw [hitem, hmissed]
    rfl
  · intro h
    rcases h with ⟨hfields, hrest⟩
    have hnone : n = 0 := Nat.add_left_cancel (hindex.symm.trans hfields)
    rw [hindices.2 (.inl hnone), hitem] at hrest
    rw [hindices.2 (.inl hnone), hitems.2 (hrest.imp Nat.add_left_cancel id)]
    exact hall

/--
The placeholders of a template are filled in three passes, first the fields, then the positions,
then the items, and each pass replaces its placeholders at once.  What comes out is the template in
which all three are replaced at once just if the fields bring in no position, and fields and
positions no item, or an item that is shown as its own placeholder.
-/
theorem fill_in_turn (template : String) :
    exists fields indices : List Char,
      Substituted (fieldTexts value) template.toList fields ∧
      Substituted (indexTexts position) fields indices ∧
      Substituted (itemTexts value) indices (fill value position template).toList ∧
      (Substituted (allTexts value position) template.toList
          (fill value position template).toList ↔
        occurrences index fields = occurrences index template.toList ∧
          (occurrences item indices = occurrences item template.toList ∨
            value.display.toList = item)) := by
  refine ⟨_, _, substituted_fillFields value _, substituted_indices position _, ?_,
    fill_substitutes_iff value position template⟩
  rw [toList_fill]
  exact substituted_items value _

/--
A placeholder is filled also where it comes from the item, or from both sides of a field that is
missing.
-/
theorem fill_reads_again :
    (fill (.object [("name", .text "\x7bindex\x7d")]) 3 "/u/\x7bitem.name\x7d" = "/u/3" ∧
      ¬ Substituted (allTexts (.object [("name", .text "\x7bindex\x7d")]) 3)
        "/u/\x7bitem.name\x7d".toList
        (fill (.object [("name", .text "\x7bindex\x7d")]) 3 "/u/\x7bitem.name\x7d").toList) ∧
    (fill (.object []) 3 "\x7bind\x7bitem.x\x7dex\x7d" = "3" ∧
      ¬ Substituted (allTexts (.object []) 3) "\x7bind\x7bitem.x\x7dex\x7d".toList
        (fill (.object []) 3 "\x7bind\x7bitem.x\x7dex\x7d").toList) :=
  ⟨⟨by decide +kernel, mt (fill_substitutes_iff _ _ _).1 (by decide +kernel)⟩,
    by decide +kernel, mt (fill_substitutes_iff _ _ _).1 (by decide +kernel)⟩

end Fill

end Placeholder
end SurfaceFeed
