import SurfaceFeed.CommandLine.Run
import SurfaceFeed.Proofs.Json.Printed
import SurfaceFeed.Proofs.LoneObject

/-!
# Responses that are documents

## The outermost brackets

The span that is looked at before the whole response goes from the first opening
bracket to the last closing one.  There is no other way to take a text apart in
which neither bracket stands outside the span.
-/

namespace SurfaceFeed
namespace Response

open Text

/-- The span between the outermost brackets of a text, with a pair of braces in it. -/
structure Outermost (text span : List Char) : Prop where
  ends : exists inside, span = '[' :: (inside ++ [']'])
  braces : exists a b c, span = a ++ '\x7b' :: (b ++ '\x7d' :: c)
  split : exists before after, text = before ++ (span ++ after) ∧ '[' ∉ before ∧ ']' ∉ after

theorem ne_of_not_mem {α : Type} [BEq α] [LawfulBEq α] {c : α} {text : List α} (h : c ∉ text) :
    forall x, x ∈ text -> (x != c) = true := by
  intro x hx
  simp only [bne_iff_ne, ne_eq]
  rintro rfl
  exact h hx

theorem fromFirst_of_not_mem {c : Char} {text : List Char} (h : c ∉ text) :
    fromFirst c text = [] := by
  have hdrop := @List.dropWhile_append_of_pos _ (· != c) text [] (ne_of_not_mem h)
  rw [List.append_nil] at hdrop
  exact hdrop

theorem fromFirst_append {c : Char} {before : List Char} (h : c ∉ before) (rest : List Char) :
    fromFirst c (before ++ c :: rest) = c :: rest := by
  rw [fromFirst, List.dropWhile_append_of_pos (ne_of_not_mem h),
    List.dropWhile_cons_of_neg (by simp)]

theorem uptoLast_eq_reverse (c : Char) (text : List Char) :
    uptoLast c text = (fromFirst c text.reverse).reverse :=
  rfl

theorem uptoLast_of_not_mem {c : Char} {text : List Char} (h : c ∉ text) :
    uptoLast c text = [] := by
  have hreverse : c ∉ text.reverse := fun hmem => h (List.mem_reverse.1 hmem)
  rw [uptoLast_eq_reverse, fromFirst_of_not_mem hreverse]
  rfl

theorem uptoLast_append {c : Char} {after : List Char} (h : c ∉ after) (front : List Char) :
    uptoLast c (front ++ c :: after) = front ++ [c] := by
  have hreverse : (front ++ c :: after).reverse = after.reverse ++ c :: front.reverse := by
    simp
  have hafter : c ∉ after.reverse := fun hmem => h (List.mem_reverse.1 hmem)
  rw [uptoLast_eq_reverse, hreverse, fromFirst_append hafter]
  simp

theorem exists_last_of_mem {c : Char} {text : List Char} (h : c ∈ text) :
    exists front after, text = front ++ c :: after ∧ c ∉ after := by
  rcases List.eq_append_cons_of_mem (List.mem_reverse.2 h) with ⟨a, b, htext, ha⟩
  refine ⟨b.reverse, a.reverse, ?_, fun hmem => ha (List.mem_reverse.1 hmem)⟩
  rw [← List.reverse_reverse text, htext]
  simp

theorem contains_fromFirst_iff (x y : Char) (hne : y ≠ x) (span : List Char) :
    (fromFirst x span).contains y = true ↔ exists a b c, span = a ++ x :: (b ++ y :: c) := by
  rw [List.contains_iff_mem]
  constructor
  · intro h
    by_cases hx : x ∈ span
    · rcases List.eq_append_cons_of_mem hx with ⟨a, rest, rfl, ha⟩
      rw [fromFirst_append ha] at h
      rcases List.append_of_mem ((List.mem_cons.1 h).resolve_left hne) with ⟨b, c, rfl⟩
      exact ⟨a, b, c, rfl⟩
    · rw [fromFirst_of_not_mem hx] at h
      cases h
  · rintro ⟨a, b, c, rfl⟩
    by_cases hx : x ∈ a
    · rcases List.eq_append_cons_of_mem hx with ⟨a', rest, rfl, ha'⟩
      rw [List.append_assoc, List.cons_append, fromFirst_append ha']
      simp
    · rw [fromFirst_append hx]
      simp

theorem uptoLast_fromFirst_eq {text span : List Char} (hspan : span ≠ [])
    (h : uptoLast ']' (fromFirst '[' text) = span) :
    exists before inside after, text = before ++ (span ++ after) ∧
      span = '[' :: (inside ++ [']']) ∧ '[' ∉ before ∧ ']' ∉ after := by
  by_cases hopen : '[' ∈ text
  · rcases List.eq_append_cons_of_mem hopen with ⟨before, rest, rfl, hbefore⟩
    rw [fromFirst_append hbefore] at h
    by_cases hclose : ']' ∈ '[' :: rest
    · have hmem : ']' ∈ rest := (List.mem_cons.1 hclose).resolve_left (by decide)
      rcases exists_last_of_mem hmem with ⟨inside, after, rfl, hafter⟩
      rw [← List.cons_append, uptoLast_append hafter] at h
      refine ⟨before, inside, after, ?_, h.symm, hbefore, hafter⟩
      rw [← h]
      simp
    · rw [uptoLast_of_not_mem hclose] at h
      exact absurd h.symm hspan
  · rw [fromFirst_of_not_mem hopen] at h
    exact absurd h.symm hspan

theorem bracketed?_eq_some_iff (text span : List Char) :
    bracketed? text = some span ↔ Outermost text span := by
  have hbraces := contains_fromFirst_iff '\x7b' '\x7d' (by decide) span
  rw [bracketed?]
  constructor
  · intro h
    split at h
    · next hcontains =>
        have hspan := Option.some.inj h
        rw [hspan] at hcontains
        have hne : span ≠ [] := by
          rintro rfl
          cases hcontains
        rcases uptoLast_fromFirst_eq hne hspan with ⟨before, inside, after, htext, hends, hsplit⟩
        exact ⟨⟨inside, hends⟩, hbraces.1 hcontains, before, after, htext, hsplit⟩
    · cases h
  · rintro ⟨⟨inside, rfl⟩, hpair, before, after, rfl, hbefore, hafter⟩
    have hspan : uptoLast ']' (fromFirst '[' (before ++ ('[' :: (inside ++ [']']) ++ after))) =
        '[' :: (inside ++ [']']) := by
      have hclose := uptoLast_append hafter ('[' :: inside)
      rw [List.cons_append, fromFirst_append hbefore, ← List.cons_append]
      simpa using hclose
    rw [hspan, if_pos (hbraces.2 hpair)]

/-! ## Responses of one object -/

theorem fenced?_of_not_occurs {cs : List Char} (h : occursIn fence cs = false) :
    fenced? cs = none := by
  have hcut : cut? fence cs = none := by
    rw [occursIn, Option.isSome_eq_false_iff, Option.isNone_iff_eq_none] at h
    exact h
  rw [fenced?, hcut]

theorem ofJson_object {fields : List (String × Json)} {m : Message}
    (h : Decode.message (.object fields) = .ok m) : ofJson (.object fields) = .ok [m] := by
  have hitems : ofItems 0 [.object fields] = .ok [m] := by
    rw [ofItems, h]
    rfl
  exact hitems

/--
A response of one object and without fences is a list of its message, unless there is a
document between its outermost brackets that is no such list; it is that document then.
-/
theorem ofChars_object_iff {cs : List Char} {fields : List (String × Json)} {m : Message}
    (hfence : occursIn fence cs = false)
    (h : Json.ofBytes (encode (trim cs)) = .ok (.object fields))
    (hm : Decode.message (.object fields) = .ok m) :
    (ofChars cs = .ok [m] ↔
      forall span v, Outermost cs span -> Json.ofBytes (encode span) = .ok v ->
        ofJson v = .ok [m]) ∧
    (forall span v, Outermost cs span -> Json.ofBytes (encode span) = .ok v ->
      ofChars cs = ofJson v) := by
  have hfenced : document? (fenced? cs) = none := by
    rw [fenced?_of_not_occurs hfence]
    rfl
  have hspan : forall span v, Outermost cs span -> Json.ofBytes (encode span) = .ok v ->
      ofChars cs = ofJson v := by
    intro span v houtermost hv
    apply ofChars_of_bracketed hfenced
    rw [(bracketed?_eq_some_iff cs span).2 houtermost]
    exact document?_some hv
  refine ⟨⟨?_, ?_⟩, hspan⟩
  · intro hmessages span v houtermost hv
    rw [← hspan span v houtermost hv]
    exact hmessages
  · intro hall
    cases hbracketed : document? (bracketed? cs) with
    | some v =>
        rcases document?_eq_some hbracketed with ⟨span, hcandidate, hv⟩
        have houtermost := (bracketed?_eq_some_iff cs span).1 hcandidate
        rw [hspan span v houtermost hv]
        exact hall span v houtermost hv
    | none =>
        rw [ofChars_of_whole hfenced hbracketed, ofWhole_of_ok h]
        exact ofJson_object hm

def bracketedName : List Char :=
  "\x7b\"type\":\"deleteSurface\",\"surfaceId\":\"[\x7b\x7dx]\"\x7d".toList

theorem ofChars_bracketedName :
    ofChars bracketedName = .ok [.deleteSurface "[\x7b\x7dx]"] := by
  have hfence : occursIn fence bracketedName = false := by decide +kernel
  have htext : encode (trim bracketedName) =
      [0x7b, 0x22, 0x74, 0x79, 0x70, 0x65, 0x22, 0x3a, 0x22, 0x64, 0x65, 0x6c, 0x65, 0x74, 0x65,
        0x53, 0x75, 0x72, 0x66, 0x61, 0x63, 0x65, 0x22, 0x2c, 0x22, 0x73, 0x75, 0x72, 0x66, 0x61,
        0x63, 0x65, 0x49, 0x64, 0x22, 0x3a, 0x22, 0x5b, 0x7b, 0x7d, 0x78, 0x5d, 0x22, 0x7d] := by
    decide +kernel
  have h : Json.ofBytes (encode (trim bracketedName)) =
      .ok (.object [("surfaceId", .text "[\x7b\x7dx]"), ("type", .text "deleteSurface")]) := by
    rw [htext]
    rfl
  refine (ofChars_object_iff hfence h rfl).1.2 ?_
  intro span v hspan hv
  have hbracketed : (bracketed? bracketedName).map encode =
      some [0x5b, 0x7b, 0x7d, 0x78, 0x5d] := by
    decide +kernel
  rw [(bracketed?_eq_some_iff bracketedName span).2 hspan] at hbracketed
  rw [Option.some.inj hbracketed] at hv
  cases hv

def componentUpdate : List Char :=
  ("\x7b\"type\":\"surfaceUpdate\",\"surface\":" ++
    "\x7b\"id\":\"s\",\"components\":[\x7b\"type\":\"Text\"\x7d]\x7d\x7d").toList

/-- The list of components is taken for the list of messages. -/
theorem ofChars_componentUpdate :
    let surface := Json.object
      [("components", .array [.object [("type", .text "Text")]]), ("id", .text "s")]
    let item := Json.object [("surface", surface), ("type", .text "surfaceUpdate")]
    occursIn fence componentUpdate = false ∧
      Json.ofBytes (encode (trim componentUpdate)) = .ok item ∧
      (exists m, Decode.message item = .ok m) ∧
      forall ms, ofChars componentUpdate ≠ .ok ms := by
  intro surface item
  have hfence : occursIn fence componentUpdate = false := by decide +kernel
  have htext : encode (trim componentUpdate) =
      [0x7b, 0x22, 0x74, 0x79, 0x70, 0x65, 0x22, 0x3a, 0x22, 0x73, 0x75, 0x72, 0x66, 0x61, 0x63,
        0x65, 0x55, 0x70, 0x64, 0x61, 0x74, 0x65, 0x22, 0x2c, 0x22, 0x73, 0x75, 0x72, 0x66, 0x61,
        0x63, 0x65, 0x22, 0x3a, 0x7b, 0x22, 0x69, 0x64, 0x22, 0x3a, 0x22, 0x73, 0x22, 0x2c, 0x22,
        0x63, 0x6f, 0x6d, 0x70, 0x6f, 0x6e, 0x65, 0x6e, 0x74, 0x73, 0x22, 0x3a, 0x5b, 0x7b, 0x22,
        0x74, 0x79, 0x70, 0x65, 0x22, 0x3a, 0x22, 0x54, 0x65, 0x78, 0x74, 0x22, 0x7d, 0x5d, 0x7d,
        0x7d] := by
    decide +kernel
  have hbracketed : (bracketed? componentUpdate).map encode =
      some [0x5b, 0x7b, 0x22, 0x74, 0x79, 0x70, 0x65, 0x22, 0x3a, 0x22, 0x54, 0x65, 0x78, 0x74,
        0x22, 0x7d, 0x5d] := by
    decide +kernel
  have hfenced : document? (fenced? componentUpdate) = none := by
    rw [fenced?_of_not_occurs hfence]
    rfl
  refine ⟨hfence, ?_, ⟨_, rfl⟩, ?_⟩
  · rw [htext]
    rfl
  · intro ms hmessages
    rw [ofChars_of_bracketed hfenced (document?_of_encode hbracketed)] at hmessages
    cases hmessages

/-! ## Fences and blanks

A fence has no blank in it, so the fenced block of a text is not changed by trimming.
-/

theorem after?_eq_none {c d : Char} (h : c ≠ d) (pattern text : List Char) :
    after? (c :: pattern) (d :: text) = none := by
  rw [after?, if_neg h]

section Cut

variable {pattern blanks : List Char} (hblanks : forall c, c ∈ pattern -> c ∉ blanks)

include hblanks

theorem after?_append_right (text : List Char) :
    after? pattern (text ++ blanks) = (after? pattern text).map (· ++ blanks) := by
  induction pattern generalizing text with
  | nil => rfl
  | cons c pattern ih =>
      have hrest : forall x, x ∈ pattern -> x ∉ blanks := fun x hx =>
        hblanks x (List.mem_cons_of_mem c hx)
      cases text with
      | nil =>
          cases blanks with
          | nil => rfl
          | cons d blanks =>
              have hne : c ≠ d := by
                rintro rfl
                exact hblanks c List.mem_cons_self List.mem_cons_self
              exact after?_eq_none hne pattern blanks
      | cons d text =>
          rw [List.cons_append, after?, after?]
          split
          · exact ih hrest text
          · rfl

variable (hpattern : pattern ≠ [])

include hpattern

theorem cut?_blanks_append (text : List Char) :
    cut? pattern (blanks ++ text) =
      (cut? pattern text).map fun (before, after) => (blanks ++ before, after) := by
  induction blanks with
  | nil =>
      rw [List.nil_append]
      cases cut? pattern text <;> rfl
  | cons d blanks ih =>
      have hnone : after? pattern (d :: (blanks ++ text)) = none := by
        cases pattern with
        | nil => exact absurd rfl hpattern
        | cons c pattern =>
            have hne : c ≠ d := by
              rintro rfl
              exact hblanks c List.mem_cons_self List.mem_cons_self
            exact after?_eq_none hne pattern _
      rw [List.cons_append, cut?, hnone,
        ih fun c hc hmem => hblanks c hc (List.mem_cons_of_mem d hmem)]
      cases cut? pattern text <;> rfl

theorem cut?_append_blanks (text : List Char) :
    cut? pattern (text ++ blanks) =
      (cut? pattern text).map fun (before, after) => (before, after ++ blanks) := by
  induction text with
  | nil =>
      have hblank := cut?_blanks_append hblanks hpattern []
      have hnone : cut? pattern [] = none := by
        rw [cut?, if_neg (by simpa using hpattern)]
      rw [List.append_nil, hnone] at hblank
      rw [List.nil_append, hblank, hnone]
      rfl
  | cons d text ih =>
      rw [List.cons_append, cut?, cut?, ← List.cons_append, after?_append_right hblanks]
      cases after? pattern (d :: text) with
      | some after => rfl
      | none =>
          simp only [Option.map_none]
          rw [ih]
          cases cut? pattern text <;> rfl

end Cut

theorem trimEnd_append_blanks {q : List Char} (hq : Blank q) (text : List Char) :
    trimEnd (text ++ q) = trimEnd text := by
  have hreverse : forall c, c ∈ q.reverse -> isBlank c = true := fun c hc =>
    hq c (List.mem_reverse.1 hc)
  rw [trimEnd, trimEnd, List.reverse_append, List.dropWhile_append_of_pos hreverse]

theorem trimStart_eq_nil {p : List Char} (hp : Blank p) : trimStart p = [] := by
  have hdrop := @List.dropWhile_append_of_pos _ isBlank p [] hp
  rw [List.append_nil] at hdrop
  exact hdrop

theorem trim_append_blanks {q : List Char} (hq : Blank q) (text : List Char) :
    trim (text ++ q) = trim text := by
  rcases exists_trimStart text with ⟨p, htext, hp⟩
  have hhead := List.head?_dropWhile_not isBlank text
  rw [← trimStart] at hhead
  cases hrest : trimStart text with
  | nil =>
      rw [hrest, List.append_nil] at htext
      rw [trim, trim, hrest, htext, trimStart_eq_nil (hp.append hq)]
  | cons c rest =>
      rw [hrest] at hhead htext
      have hstart : trimStart (text ++ q) = (c :: rest) ++ q := by
        rw [htext, trimStart, List.append_assoc, List.dropWhile_append_of_pos hp,
          List.cons_append, List.dropWhile_cons_of_neg (by simpa using hhead)]
      rw [trim, trim, hstart, trimEnd_append_blanks hq, hrest]

theorem isTagChar_of_isBlank {c : Char} (h : isBlank c = true) : isTagChar c = false := by
  rw [Bool.eq_false_iff]
  intro htag
  have hranges : (0x30 ≤ c.toNat ∧ c.toNat ≤ 0x39) ∨ (0x41 ≤ c.toNat ∧ c.toNat ≤ 0x5a) ∨
      (0x61 ≤ c.toNat ∧ c.toNat ≤ 0x7a) ∨ c.toNat = 0x2d ∨ c.toNat = 0x5f := by
    change (((decide (0x41 ≤ c.val ∧ c.val ≤ 0x5a) || (0x61 ≤ c.val && c.val ≤ 0x7a)) ||
      (0x30 ≤ c.val && c.val ≤ 0x39)) || c == '-' || c == '_') = true at htag
    simp only [Bool.or_eq_true, Bool.and_eq_true, decide_eq_true_eq, beq_iff_eq,
      UInt32.le_iff_toNat_le] at htag
    rcases htag with ((((hupper | hlower) | hdigit)) | rfl) | rfl
    · exact .inr (.inl hupper)
    · exact .inr (.inr (.inl hlower))
    · exact .inl hdigit
    · exact .inr (.inr (.inr (.inl rfl)))
    · exact .inr (.inr (.inr (.inr rfl)))
  simp only [isBlank, Bool.or_eq_true, Bool.and_eq_true, decide_eq_true_eq, beq_iff_eq] at h
  omega

theorem dropWhile_isTagChar_append {q : List Char} (hq : Blank q) (text : List Char) :
    (text ++ q).dropWhile isTagChar = text.dropWhile isTagChar ++ q := by
  rw [List.dropWhile_append]
  split
  · next hempty =>
      rw [List.isEmpty_iff.1 hempty]
      cases q with
      | nil => rfl
      | cons c q => simp [isTagChar_of_isBlank (hq c List.mem_cons_self)]
  · rfl

/-- A fence has no blank in it, so the fenced block of a text is that of the trimmed text. -/
theorem fenced?_trim (cs : List Char) : fenced? (trim cs) = fenced? cs := by
  have hticks : fence.all (fun c => !isBlank c) = true := by decide
  have hfence : forall {q : List Char}, Blank q -> forall c, c ∈ fence -> c ∉ q := by
    intro q hq c hc hmem
    have htick := List.all_eq_true.1 hticks c hc
    rw [hq c hmem] at htick
    cases htick
  rcases exists_trim cs with ⟨p, q, hcs, hp, hq⟩
  have hne : fence ≠ [] := by decide
  generalize trim cs = text at hcs
  subst hcs
  rw [fenced?, fenced?, cut?_blanks_append (hfence hp) hne, cut?_append_blanks (hfence hq) hne]
  cases cut? fence text with
  | none => rfl
  | some pieces =>
      have htag := dropWhile_isTagChar_append hq pieces.2
      simp only [Option.map_some, htag]
      rw [cut?_append_blanks (hfence hq) hne]
      cases cut? fence (pieces.2.dropWhile isTagChar) with
      | some inner => rfl
      | none => simp only [Option.map_none, trim_append_blanks hq]

/-! ## Responses of one list -/

theorem eq_of_first {α : Type} {x : α} {a a' rest rest' : List α} (ha : x ∉ a) (ha' : x ∉ a')
    (h : a ++ x :: rest = a' ++ x :: rest') : rest = rest' := by
  rcases List.append_eq_append_iff.1 h with ⟨b, rfl, hb⟩ | ⟨b, rfl, hb⟩
  · cases b with
    | nil => exact (List.cons.inj hb).2
    | cons y b =>
        cases (List.cons.inj hb).1
        exact absurd (List.mem_append_right a List.mem_cons_self) ha'
  · cases b with
    | nil => exact (List.cons.inj hb).2.symm
    | cons y b =>
        cases (List.cons.inj hb).1
        exact absurd (List.mem_append_right a' List.mem_cons_self) ha

theorem eq_of_enclosed {α : Type} {x y : α} {before before' inside inside' after after' : List α}
    (hbefore : x ∉ before) (hbefore' : x ∉ before') (hafter : y ∉ after) (hafter' : y ∉ after')
    (h : before ++ (x :: (inside ++ [y]) ++ after) =
      before' ++ (x :: (inside' ++ [y]) ++ after')) : inside = inside' := by
  have hrest : (inside ++ [y]) ++ after = (inside' ++ [y]) ++ after' :=
    eq_of_first hbefore hbefore' h
  have hback := congrArg List.reverse hrest
  simp only [List.reverse_append, List.reverse_singleton, List.singleton_append] at hback
  have hreverse : y ∉ after.reverse := fun hmem => hafter (List.mem_reverse.1 hmem)
  have hreverse' : y ∉ after'.reverse := fun hmem => hafter' (List.mem_reverse.1 hmem)
  exact List.reverse_inj.1 (eq_of_first hreverse hreverse' hback)

theorem exists_front_of_items {depth : Nat} {vs : List Json} {text : Bytes}
    (h : Json.Written depth (.items vs) text) : exists front, text = front ++ [0x5d] := by
  induction vs generalizing text with
  | nil =>
      cases h with
      | endOfItems _ => exact ⟨_, rfl⟩
  | cons v vs ih =>
      cases h with
      | @nextItem _ a b s t _ _ _ _ _ ht =>
          rcases ih ht with ⟨front, rfl⟩
          exact ⟨a ++ 0x2c :: (b ++ (s ++ front)), by simp⟩

theorem exists_inside_of_array {depth : Nat} {vs : List Json} {text : Bytes}
    (h : Json.Written depth (.value (.array vs)) text) :
    exists inside, text = 0x5b :: (inside ++ [0x5d]) := by
  cases vs with
  | nil =>
      rcases h.exists_of_nil with ⟨a, _, rfl⟩
      exact ⟨a, rfl⟩
  | cons v vs =>
      rcases h.exists_of_list with ⟨below, a, t, u, _, rfl, _, _, hu⟩
      rcases exists_front_of_items hu with ⟨front, rfl⟩
      exact ⟨a ++ (t ++ front), by simp⟩

theorem encode_of_outermost {cs span : List Char} {before inside after : Bytes}
    (hspan : Outermost cs span) (hcs : encode cs = before ++ (0x5b :: (inside ++ [0x5d]) ++ after))
    (hbefore : 0x5b ∉ before) (hafter : 0x5d ∉ after) :
    encode span = 0x5b :: (inside ++ [0x5d]) := by
  rcases hspan with ⟨⟨within, rfl⟩, _, front, back, hsplit, hfront, hback⟩
  have hends : encode ('[' :: (within ++ [']'])) = 0x5b :: (encode within ++ [0x5d]) := by
    rw [encode_cons, encode_append]
    rfl
  have hwhole : encode front ++ (0x5b :: (encode within ++ [0x5d]) ++ encode back) =
      before ++ (0x5b :: (inside ++ [0x5d]) ++ after) := by
    rw [← hends, ← encode_append, ← encode_append, ← hsplit, hcs]
  have hopen : 0x5b ∉ encode front := fun hmem => hfront (mem_of_mem_encode hmem (by decide))
  have hclose : 0x5d ∉ encode back := fun hmem => hback (mem_of_mem_encode hmem (by decide))
  rw [hends, eq_of_enclosed hopen hbefore hclose hafter hwhole]

theorem ofBytes_outermost {cs span : List Char} {items : List Json}
    (h : Json.ofBytes (encode (trim cs)) = .ok (.array items)) (hspan : Outermost cs span) :
    Json.ofBytes (encode span) = .ok (.array items) := by
  rcases (Json.ofBytes_eq_ok_iff _ _).1 h with ⟨a, s, b, htext, ha, hb, hs⟩
  rcases exists_inside_of_array hs with ⟨inside, rfl⟩
  rcases exists_trim cs with ⟨p, q, hcs, hp, hq⟩
  have hwhole : encode cs =
      (encode p ++ a) ++ (0x5b :: (inside ++ [0x5d]) ++ (b ++ encode q)) := by
    rw [hcs]
    simp [htext]
  have hspace : forall {x : UInt8} {t : Bytes}, Json.Space t -> Json.Reader.isSpace x = false ->
      x ∉ t := by
    intro x t ht hx hmem
    rw [ht x hmem] at hx
    cases hx
  have hbefore : 0x5b ∉ encode p ++ a := by
    intro hmem
    rcases List.mem_append.1 hmem with hmem | hmem
    · exact hp.not_mem (by decide) (by decide) hmem
    · exact hspace ha (by decide) hmem
  have hafter : 0x5d ∉ b ++ encode q := by
    intro hmem
    rcases List.mem_append.1 hmem with hmem | hmem
    · exact hspace hb (by decide) hmem
    · exact hq.not_mem (by decide) (by decide) hmem
  rw [encode_of_outermost hspan hwhole hbefore hafter, Json.ofBytes_eq_ok_iff]
  exact ⟨[], _, [], by simp, Json.space_nil, Json.space_nil, hs⟩

theorem ofChars_array {cs : List Char} {items : List Json}
    (h : Json.ofBytes (encode (trim cs)) = .ok (.array items))
    (hfenced : document? (fenced? cs) = none) : ofChars cs = ofJson (.array items) := by
  cases hbracketed : bracketed? cs with
  | some span =>
      apply ofChars_of_bracketed hfenced
      rw [hbracketed]
      exact document?_some (ofBytes_outermost h ((bracketed?_eq_some_iff cs span).1 hbracketed))
  | none =>
      have hnone : document? (bracketed? cs) = none := by
        rw [hbracketed]
        rfl
      rw [ofChars_of_whole hfenced hnone, ofWhole_of_ok h]

/-- A fenced document in a response that is a document has no messages. -/
theorem ofChars_of_inner_fence {cs : List Char} {v w : Json}
    (h : Json.ofBytes (encode (trim cs)) = .ok v) (hfenced : document? (fenced? cs) = some w) :
    ofChars cs = ofJson w ∧ messagesOf w = [] := by
  refine ⟨ofChars_of_fenced hfenced, ?_⟩
  rw [← fenced?_trim] at hfenced
  exact messagesOf_fenced? (Lexical.passes_document ((Json.ofBytes_eq_ok_iff _ _).1 h)) hfenced

/-! ## Printed lists of messages -/

/-- What the command prints for some messages. -/
def printed (ms : List Message) : String :=
  (Json.array (ms.map Encode.message)).pretty ++ "\n"

theorem parse_eq_ok_iff (env : CommandLine.Environment) (input text : String) :
    CommandLine.parse env input = .ok text ↔
      exists cs ms, CommandLine.readText env input = .ok cs ∧ ofChars cs = .ok ms ∧
        text = printed ms := by
  constructor
  · intro h
    rcases exists_ok_of_bind h with ⟨cs, hcs, hafter⟩
    rcases exists_ok_of_bind hafter with ⟨ms, hms, hprinted⟩
    refine ⟨cs, ms, hcs, ?_, (Except.ok.inj hprinted).symm⟩
    rw [CommandLine.messagesOf] at hms
    split at hms
    · next hmessages => rw [hmessages, Except.ok.inj hms]
    · cases hms
  · rintro ⟨cs, ms, hcs, hms, rfl⟩
    have hmessages : CommandLine.messagesOf cs = .ok ms := by
      rw [CommandLine.messagesOf, hms]
    rw [CommandLine.parse, hcs]
    change (CommandLine.messagesOf cs >>= fun ms => .ok (printed ms)) = _
    rw [hmessages]
    rfl

theorem exists_inside_of_pretty (vs : List Json) :
    exists inside, (Json.array vs).pretty.toList = '[' :: (inside ++ [']']) := by
  rw [Json.pretty, Json.indented, Json.enclose]
  split
  · exact ⟨[], rfl⟩
  · refine ⟨(Json.newLine (0 + 1) ++ ("," ++ Json.newLine (0 + 1)).intercalate
      (Json.indentedItems (0 + 1) vs) ++ Json.newLine 0).toList, ?_⟩
    simp

theorem trim_brackets (inside : List Char) :
    trim ('[' :: (inside ++ [']'])) = '[' :: (inside ++ [']']) := by
  have hopen : isBlank '[' = false := by decide
  have hclose : isBlank ']' = false := by decide
  simp [trim, trimStart, trimEnd, hopen, hclose]

theorem encode_trim_printed (ms : List Message) :
    encode (trim (printed ms).toList) = bytesOf (Json.array (ms.map Encode.message)).pretty := by
  have hline : Blank "\n".toList := by
    intro c hc
    rw [List.mem_singleton.1 hc]
    decide
  rcases exists_inside_of_pretty (ms.map Encode.message) with ⟨inside, hinside⟩
  rw [printed, String.toList_append, trim_append_blanks hline, bytesOf, hinside, trim_brackets]

/--
What is printed for messages is read just if each of them is read of a text of its own and none
has more than 126 levels; it is read as the list of what is read of them then.
-/
theorem ofBytes_printed_eq_ok_iff (ms : List Message) (v : Json) :
    Json.ofBytes (encode (trim (printed ms).toList)) = .ok v ↔
      exists items, v = .array items ∧
        (ms.map fun m => Json.ofText (Encode.message m).pretty) = items.map .ok ∧
        forall m, m ∈ ms -> (Encode.message m).levels ≤ 126 := by
  have hitems : forall items,
      Json.Rereads 126 (.items (ms.map Encode.message)) (.items items) ↔
        (ms.map fun m => Json.ofText (Encode.message m).pretty) = items.map .ok ∧
          forall m, m ∈ ms -> (Encode.message m).levels ≤ 126 := by
    intro items
    rw [Json.rereads_items_iff (by decide), List.map_map, List.forall_mem_map]
    simp only [Function.comp_def]
  have hdeepest : Json.Reader.deepest = 126 + 1 := rfl
  rw [encode_trim_printed, Json.ofBytes_pretty_eq_ok_iff, hdeepest]
  constructor
  · intro h
    cases h with
    | number hnumber _ => cases hnumber
    | array hlist => exact ⟨_, rfl, (hitems _).1 hlist⟩
  · rintro ⟨items, rfl, h⟩
    exact .array ((hitems items).2 h)

theorem encode_of_outermost_printed {ms : List Message} {span : List Char}
    (h : Outermost (printed ms).toList span) :
    encode span = encode (trim (printed ms).toList) := by
  rcases exists_inside_of_pretty (ms.map Encode.message) with ⟨inside, hinside⟩
  have hends : bytesOf (Json.array (ms.map Encode.message)).pretty =
      0x5b :: (encode inside ++ [0x5d]) := by
    rw [bytesOf, hinside, encode_cons, encode_append]
    rfl
  have htext : encode (printed ms).toList =
      [] ++ (0x5b :: (encode inside ++ [0x5d]) ++ [0x0a]) := by
    rw [printed, String.toList_append, encode_append, ← hends]
    rfl
  rw [encode_trim_printed, hends]
  exact encode_of_outermost h htext List.not_mem_nil (by decide)

theorem ofChars_printed {ms : List Message}
    (hfenced : document? (fenced? (printed ms).toList) = none) :
    ofChars (printed ms).toList = ofWhole (printed ms).toList := by
  cases hbracketed : document? (bracketed? (printed ms).toList) with
  | none => exact ofChars_of_whole hfenced hbracketed
  | some v =>
      rcases document?_eq_some hbracketed with ⟨span, hcandidate, hv⟩
      rw [encode_of_outermost_printed ((bracketed?_eq_some_iff _ span).1 hcandidate)] at hv
      rw [ofChars_of_bracketed hfenced hbracketed, ofWhole_of_ok hv]

/--
A response that is a list has the messages of the list, unless its first fenced block is a
document; that one decides then, and has no messages.  What is printed for messages is such a
list just if each message can be read of a text of its own and has no more than 126 levels.
Whether it is one or not, it is taken as a whole, or for the document in its fenced block.
-/
theorem ofChars_of_list :
    (forall cs items, Json.ofBytes (encode (trim cs)) = .ok (.array items) ->
      (document? (fenced? cs) = none -> ofChars cs = ofJson (.array items)) ∧
      forall v, document? (fenced? cs) = some v -> ofChars cs = ofJson v ∧ messagesOf v = []) ∧
    (forall env input text, CommandLine.parse env input = .ok text ↔
      exists cs ms, CommandLine.readText env input = .ok cs ∧ ofChars cs = .ok ms ∧
        text = printed ms) ∧
    forall ms,
      (forall v, Json.ofBytes (encode (trim (printed ms).toList)) = .ok v ↔
        exists items, v = .array items ∧
          (ms.map fun m => Json.ofText (Encode.message m).pretty) = items.map .ok ∧
          forall m, m ∈ ms -> (Encode.message m).levels ≤ 126) ∧
      (document? (fenced? (printed ms).toList) = none ->
        ofChars (printed ms).toList = ofWhole (printed ms).toList) ∧
      forall v, document? (fenced? (printed ms).toList) = some v ->
        ofChars (printed ms).toList = ofJson v := by
  refine ⟨?_, parse_eq_ok_iff, ?_⟩
  · intro cs items h
    exact ⟨ofChars_array h, fun v hfenced => ofChars_of_inner_fence h hfenced⟩
  · intro ms
    exact ⟨ofBytes_printed_eq_ok_iff ms, ofChars_printed, fun v hfenced =>
      ofChars_of_fenced hfenced⟩

/-- Deletes a surface with a fenced block in its name. -/
def deleteFenced (block : String) : Message :=
  .deleteSurface ("```" ++ block ++ "```")

def deletion (block : String) : Json :=
  .object [("surfaceId", .text ("```" ++ block ++ "```")), ("type", .text "deleteSurface")]

theorem rereads_deleteFenced (depth : Nat) (block : String) :
    Json.Rereads (depth + 1) (.value (Encode.message (deleteFenced block)))
      (.value (deletion block)) := by
  have horder : "surfaceId" < "type" := by decide
  have hfields : deletion block = .object (Fields.ofList
      [("type", .text "deleteSurface"), ("surfaceId", .text ("```" ++ block ++ "```"))]) := by
    simp only [deletion, Fields.ofList, List.foldl_cons, List.foldl_nil, Fields.insert, horder,
      if_true]
  rw [hfields]
  exact .object (.someFields .text (.someFields .text .noFields))

theorem ofBytes_printed_deleteFenced (block : String) :
    Json.ofBytes (encode (trim (printed [deleteFenced block]).toList)) =
      .ok (.array [deletion block]) := by
  refine (ofBytes_printed_eq_ok_iff _ _).2 ⟨_, rfl, ?_, ?_⟩
  · rw [List.map_singleton, List.map_singleton, Json.ofText,
      (Json.ofBytes_pretty_eq_ok_iff _ _).2 (rereads_deleteFenced 126 block)]
  · intro m hm
    rw [List.mem_singleton.1 hm]
    exact (rereads_deleteFenced 125 block).levels_le

theorem ofChars_deleteFenced_mark :
    ofChars (printed [deleteFenced "?"]).toList = .ok [deleteFenced "?"] := by
  have hbody : (fenced? (printed [deleteFenced "?"]).toList).map encode = some [0x3f] := by
    decide +kernel
  have hfenced : document? (fenced? (printed [deleteFenced "?"]).toList) = none := by
    rw [document?_of_encode hbody]
    rfl
  have hlist := (ofChars_of_list.1 _ _ (ofBytes_printed_deleteFenced "?")).1 hfenced
  rw [hlist]
  rfl

def nested : Nat -> Value
  | 0 => .array []
  | n + 1 => .array [nested n]

theorem levels_nested (n : Nat) : (nested n).toJson.levels = n + 1 := by
  induction n with
  | zero => rfl
  | succ n ih =>
      have hstep : (nested (n + 1)).toJson.levels = max (nested n).toJson.levels 0 + 1 := rfl
      rw [hstep, ih, Nat.max_zero]

/--
A list in a fenced name is taken for the list of messages, and a message of 127 levels is too
deep for the list in which it is printed.
-/
theorem printed_not_read_back :
    (Json.ofBytes (encode (trim (printed [deleteFenced "[]"]).toList)) =
        .ok (.array [deletion "[]"]) ∧
      ofJson (.array [deletion "[]"]) = .ok [deleteFenced "[]"] ∧
      ofChars (printed [deleteFenced "[]"]).toList = .ok []) ∧
    forall v, Json.ofBytes
      (encode (trim (printed [.dataModelUpdate "/" (nested 125)]).toList)) ≠ .ok v := by
  refine ⟨⟨ofBytes_printed_deleteFenced "[]", rfl, ?_⟩, ?_⟩
  · have hbody : (fenced? (printed [deleteFenced "[]"]).toList).map encode =
        some [0x5b, 0x5d] := by
      decide +kernel
    rw [ofChars_of_fenced (document?_of_encode hbody)]
    rfl
  · intro v hread
    rcases (ofBytes_printed_eq_ok_iff _ _).1 hread with ⟨_, _, _, hlevels⟩
    have hdeep := hlevels _ List.mem_cons_self
    have hmessage : (Encode.message (.dataModelUpdate "/" (nested 125))).levels =
        max 0 (max 0 (max (nested 125).toJson.levels 0)) + 1 := rfl
    rw [hmessage, levels_nested] at hdeep
    exact absurd hdeep (by decide)

end Response
end SurfaceFeed
