import SurfaceFeed.Proofs.Json.Encoded
import SurfaceFeed.Response
import SurfaceFeed.Scanner

/-!
# Texts that begin inside a string

## Bytes in their places

Outside its strings a document has but a few bytes, and none of them is in the
name of a kind of message.  A text that begins inside a string of one document
and is a document itself has inside and outside the other way round: its strings
are what stands between the strings of the first.  No message can be in it.
-/

namespace SurfaceFeed
namespace Lexical

/-- The bytes that may stand in a document, outside and inside strings and after a backslash. -/
def admits : Lexical -> UInt8 -> Bool
  | plain, b => b == 0x22 || Json.isToken b
  | quoted, _ => true
  | escaped, b => b == 0x75 || (Json.Reader.shortEscape? b).isSome

/-- A text of bytes that are all in their places, which leads from one state to another. -/
inductive Passes : Lexical -> Bytes -> Lexical -> Prop where
  | nil {l : Lexical} : Passes l [] l
  | cons {l l' : Lexical} {b : UInt8} {rest : Bytes} :
      l.admits b = true -> Passes (l.next b) rest l' -> Passes l (b :: rest) l'

theorem Passes.append {l l' l'' : Lexical} {a b : Bytes} (ha : Passes l a l')
    (hb : Passes l' b l'') : Passes l (a ++ b) l'' := by
  induction ha with
  | nil => exact hb
  | cons hadmits _ ih => exact .cons hadmits (ih hb)

theorem Passes.exists_of_append {l l'' : Lexical} {a b : Bytes} (h : Passes l (a ++ b) l'') :
    exists l', Passes l a l' ∧ Passes l' b l'' := by
  induction a generalizing l with
  | nil => exact ⟨l, .nil, h⟩
  | cons x a ih =>
      cases h with
      | cons hadmits hrest =>
          rcases ih hrest with ⟨l', ha, hb⟩
          exact ⟨l', .cons hadmits ha, hb⟩

theorem Passes.unique {l l' l'' : Lexical} {a : Bytes} (h : Passes l a l')
    (h' : Passes l a l'') : l' = l'' := by
  induction h with
  | nil =>
      cases h' with
      | nil => rfl
  | cons _ _ ih =>
      cases h' with
      | cons _ hrest => exact ih hrest

/-- Such a text leads the scanner to the same state. -/
theorem Passes.scan {l l' : Lexical} {text : Bytes} (h : Passes l text l') (p : Place) :
    exists p', (Scanner.scan ⟨l, p⟩ text).1 = ⟨l', p'⟩ := by
  induction h generalizing p with
  | nil => exact ⟨p, rfl⟩
  | @cons l l' b rest _ _ ih =>
      have hstep : exists p', (Scanner.step ⟨l, p⟩ b).1 = ⟨l.next b, p'⟩ := by
        cases l with
        | plain => exact ⟨_, rfl⟩
        | quoted => exact ⟨_, rfl⟩
        | escaped => exact ⟨_, rfl⟩
      rcases hstep with ⟨p', hp'⟩
      rcases ih p' with ⟨p'', hp''⟩
      refine ⟨p'', ?_⟩
      rw [← hp'', ← hp']
      rfl

theorem passes_quoted {s : Bytes} (h : forall b, b ∈ s -> b ≠ 0x22 ∧ b ≠ 0x5c) :
    Passes .quoted s .quoted := by
  induction s with
  | nil => exact .nil
  | cons b s ih =>
      rcases h b List.mem_cons_self with ⟨hquote, hslash⟩
      have hnext : quoted.next b = .quoted := by
        simp [next, hquote, hslash]
      refine .cons rfl ?_
      rw [hnext]
      exact ih fun x hx => h x (List.mem_cons_of_mem b hx)

theorem Passes.eq_quoted {s : Bytes} {l : Lexical} (h : Passes .quoted s l)
    (hs : forall b, b ∈ s -> b ≠ 0x22 ∧ b ≠ 0x5c) : l = .quoted :=
  h.unique (passes_quoted hs)

theorem passes_token {b : UInt8} (h : Json.isToken b = true) : Passes .plain [b] .plain := by
  have hquote : b ≠ 0x22 := by
    rintro rfl
    cases h
  have hnext : plain.next b = .plain := by
    simp [next, hquote]
  refine .cons (by simp [admits, h]) ?_
  rw [hnext]
  exact .nil

theorem passes_tokens {s : Bytes} (h : forall b, b ∈ s -> Json.isToken b = true) :
    Passes .plain s .plain :=
  @Json.of_tokens (fun s => Passes .plain s .plain) .nil (fun _ _ => Passes.append)
    (fun _ => passes_token) s h

theorem eq_quoted_of_admits {l : Lexical} {b : UInt8} (h : l.admits b = true)
    (hb : 0x80 ≤ b.toNat) : l = .quoted := by
  cases l with
  | quoted => rfl
  | plain =>
      exfalso
      simp only [admits, Bool.or_eq_true, beq_iff_eq] at h
      rcases h with rfl | htoken
      · exact absurd hb (by decide)
      · have hascii := Json.ascii_of_isToken htoken
        omega
  | escaped =>
      exfalso
      simp only [admits, Bool.or_eq_true, beq_iff_eq] at h
      rcases h with rfl | hshort
      · exact absurd hb (by decide)
      · rcases Option.isSome_iff_exists.1 hshort with ⟨c, hc⟩
        have hascii := (Json.ascii_of_shortEscape hc).1
        omega

/-! ## Documents have their bytes in their places -/

theorem passes_escape {e out : Bytes} (h : Json.Escape e out) :
    Passes .quoted (0x5c :: e) .quoted := by
  have hhex : forall a b c d n, Text.hexValue4? a b c d = some n ->
      Passes .quoted [a, b, c, d] .quoted := by
    intro a b c d n hn
    apply passes_quoted
    intro x hx
    rcases Json.exists_hexValue_of_mem hn x hx with ⟨k, hk⟩
    constructor
    · rintro rfl
      cases hk
    · rintro rfl
      cases hk
  cases h with
  | @short b c _ hshort =>
      refine .cons rfl (.cons ?_ .nil)
      have hsome : (Json.Reader.shortEscape? b).isSome = true := by
        rw [hshort]
        rfl
      simp [admits, next, hsome]
  | @code a b c d n hn _ _ => exact .cons rfl (.cons rfl (hhex a b c d n hn))
  | @pair a b c d a' b' c' d' n n' hn _ _ hn' _ =>
      have hsecond : Passes .quoted (0x5c :: 0x75 :: [a', b', c', d']) .quoted :=
        .cons rfl (.cons rfl (hhex a' b' c' d' n' hn'))
      exact .cons rfl (.cons rfl ((hhex a b c d n hn).append hsecond))

theorem passes_body {s out : Bytes} (h : Json.Body s out) : Passes .quoted s .quoted := by
  induction h with
  | nil => exact .nil
  | @byte b s out hquote hslash _ _ ih =>
      have hnext : quoted.next b = .quoted := by
        simp [next, hquote, hslash]
      refine .cons rfl ?_
      rw [hnext]
      exact ih
  | escape he _ ih => exact (passes_escape he).append ih

theorem passes_string {q : Bytes} {name : String} (h : Json.Quoted q name) :
    Passes .plain (0x22 :: q) .plain := by
  cases h with
  | mk hbody _ => exact .cons rfl ((passes_body hbody).append (.cons rfl .nil))

theorem passes_document {text : Bytes} {v : Json} (h : Json.Writes text v) :
    Passes .plain text .plain :=
  @Json.Writes.of_closed (fun s => Passes .plain s .plain) .nil (fun _ _ => Passes.append)
    (fun _ => passes_token) (fun _ _ => passes_string) _ _ h

end Lexical

/-! ## Documents that are no messages -/

namespace Json

/-- The document is no message, nor the name of a kind of message. -/
structure Mute (v : Json) : Prop where
  message : forall m, Decode.message v ≠ .ok m
  kind : forall k, Decode.kind v ≠ .ok k

def Part.Mute : Part -> Prop
  | value v => Json.Mute v ∧ forall vs, v = .array vs -> forall w, w ∈ vs -> Json.Mute w
  | items vs => forall v, v ∈ vs -> Json.Mute v
  | field name _ => name ≠ "type"
  | fields fs => forall f, f ∈ fs -> f.1 ≠ "type"

theorem not_message_of_isScalar {v : Json} (h : v.isScalar = true) (m : Message) :
    Decode.message v ≠ .ok m := by
  intro hm
  cases v with
  | array items => cases h
  | object fields => cases h
  | null => cases hm
  | bool b => cases hm
  | int n => cases hm
  | float f => cases hm
  | text s => cases hm

theorem mute_of_isScalar {v : Json} (h : v.isScalar = true)
    (htext : forall s, v = .text s -> Message.Kind.ofName? s = none) : Mute v := by
  constructor
  · exact not_message_of_isScalar h
  · intro k hk
    cases v with
    | array items => cases h
    | object fields => cases h
    | null => cases hk
    | bool b => cases hk
    | int n => cases hk
    | float f => cases hk
    | text s =>
        rw [Decode.kind, htext s rfl] at hk
        cases hk

theorem find?_ofList_eq_none {α : Type} {fs : List (String × α)} {name : String}
    (h : forall f, f ∈ fs -> f.1 ≠ name) : Fields.find? (Fields.ofList fs) name = none := by
  have hfold : forall sorted : List (String × α), Fields.find? sorted name = none ->
      Fields.find? (fs.foldl (fun sorted f => Fields.insert sorted f.1 f.2) sorted) name =
        none := by
    induction fs with
    | nil => exact fun _ hsorted => hsorted
    | cons f fs ih =>
        intro sorted hsorted
        refine ih (fun g hg => h g (List.mem_cons_of_mem f hg)) _ ?_
        rw [Fields.find?_insert_ne _ _ (h f List.mem_cons_self)]
        exact hsorted
  exact hfold [] rfl

theorem mute_object {fs : List (String × Json)} (h : forall f, f ∈ fs -> f.1 ≠ "type") :
    Mute (.object (Fields.ofList fs)) := by
  constructor
  · intro m hm
    rw [Decode.message, Decode.field, find?_ofList_eq_none h] at hm
    cases hm
  · intro k hk
    cases hk

theorem mute_array {vs : List Json} (h : forall v, v ∈ vs -> Mute v) : Mute (.array vs) := by
  constructor
  · intro m hm
    cases vs with
    | nil => cases hm
    | cons v vs =>
        rcases exists_ok_of_bind hm with ⟨k, hk, _⟩
        exact (h v List.mem_cons_self).kind k hk
  · intro k hk
    cases hk

/-! ## Inside out -/

theorem Body.tokens {s out : Bytes} {l : Lexical} (h : Body s out)
    (hpasses : Lexical.Passes .plain s l) :
    l = .plain ∧ out = s ∧ forall b, b ∈ s -> isToken b = true := by
  induction h with
  | nil =>
      cases hpasses with
      | nil => exact ⟨rfl, rfl, fun b hb => nomatch hb⟩
  | @byte b s out hquote hslash _ _ ih =>
      cases hpasses with
      | cons hadmits hrest =>
          have hnext : Lexical.plain.next b = .plain := by
            simp [Lexical.next, hquote]
          have htoken : isToken b = true := by
            simpa [Lexical.admits, hquote] using hadmits
          rw [hnext] at hrest
          rcases ih hrest with ⟨hl, rfl, htokens⟩
          refine ⟨hl, rfl, ?_⟩
          intro x hx
          rcases List.mem_cons.1 hx with rfl | hx
          · exact htoken
          · exact htokens x hx
  | escape _ _ _ =>
      cases hpasses with
      | cons hadmits _ => cases hadmits

theorem Quoted.tokens {q : Bytes} {name : String} {l : Lexical} (h : Quoted q name)
    (hpasses : Lexical.Passes .quoted (0x22 :: q) l) :
    l = .quoted ∧ forall b, b ∈ Text.bytesOf name -> isToken b = true := by
  cases h with
  | @mk body bytes chars hbody hdecode =>
      cases hpasses with
      | cons _ hrest =>
          rcases hrest.exists_of_append with ⟨l', hinside, hclose⟩
          rcases hbody.tokens hinside with ⟨rfl, rfl, htokens⟩
          constructor
          · cases hclose with
            | cons _ hend =>
                cases hend
                rfl
          · rw [Text.bytesOf, String.toList_ofList, ← (Text.decode_eq_ok_iff _ _).1 hdecode]
            exact htokens

theorem ne_type_of_tokens {name : String}
    (h : forall b, b ∈ Text.bytesOf name -> isToken b = true) : name ≠ "type" := by
  rintro rfl
  have hletter := h 0x79 (by decide)
  cases hletter

theorem ofName?_of_tokens {name : String}
    (h : forall b, b ∈ Text.bytesOf name -> isToken b = true) :
    Message.Kind.ofName? name = none := by
  have hletter : (0x64 : UInt8) ∉ Text.bytesOf name := fun hmem => nomatch h 0x64 hmem
  unfold Message.Kind.ofName?
  split
  · exact absurd (by decide) hletter
  · exact absurd (by decide) hletter
  · exact absurd (by decide) hletter
  · exact absurd (by decide) hletter
  · rfl

theorem mute_of_digits {negative : Bool} {s : Bytes} {v : Json}
    (h : Number.Digits negative s v) : Mute v := by
  refine mute_of_isScalar h.isScalar ?_
  rintro text rfl
  cases h.isNumber

theorem Part.mute_value {v : Json} (h : Json.Mute v) (hscalar : v.isScalar = true) :
    (Part.value v).Mute := by
  refine ⟨h, ?_⟩
  rintro vs rfl
  cases hscalar

theorem Part.mute_list {vs : List Json} (h : forall v, v ∈ vs -> Json.Mute v) :
    (Part.value (.array vs)).Mute := by
  refine ⟨mute_array h, ?_⟩
  intro ws hws
  cases hws
  exact h

theorem Part.mute_object {fs : List (String × Json)} (h : forall f, f ∈ fs -> f.1 ≠ "type") :
    (Part.value (.object (Fields.ofList fs))).Mute := by
  refine ⟨Json.mute_object h, ?_⟩
  intro ws hws
  cases hws

section Tokens

variable {s rest : Bytes} {b : UInt8} {l : Lexical}

theorem ne_of_isToken (h : isToken b = true) : b ≠ 0x22 ∧ b ≠ 0x5c := by
  constructor
  · rintro rfl
    cases h
  · rintro rfl
    cases h

theorem passes_of_tokens (hs : forall b, b ∈ s -> isToken b = true)
    (h : Lexical.Passes .quoted (s ++ rest) l) : Lexical.Passes .quoted rest l := by
  rcases h.exists_of_append with ⟨l', hfirst, hrest⟩
  cases hfirst.eq_quoted fun b hb => ne_of_isToken (hs b hb)
  exact hrest

theorem passes_of_token (hb : isToken b = true) (h : Lexical.Passes .quoted (b :: rest) l) :
    Lexical.Passes .quoted rest l := by
  have hsingle : forall x, x ∈ [b] -> isToken x = true := by
    intro x hx
    rw [List.mem_singleton.1 hx]
    exact hb
  exact passes_of_tokens hsingle h

theorem eq_quoted_of_tokens (hs : forall b, b ∈ s -> isToken b = true)
    (h : Lexical.Passes .quoted s l) : l = .quoted :=
  h.eq_quoted fun b hb => ne_of_isToken (hs b hb)

end Tokens

/-- A part of a document that also is part of a string, and of what is around it, is mute. -/
theorem Written.mute {depth : Nat} {part : Part} {text : Bytes} {l : Lexical}
    (h : Written depth part text) (hpasses : Lexical.Passes .quoted text l) :
    l = .quoted ∧ part.Mute := by
  induction h generalizing l with
  | null =>
      refine ⟨eq_quoted_of_tokens (forall_mem_of_all rfl) hpasses, Part.mute_value ?_ rfl⟩
      exact mute_of_isScalar rfl fun _ heq => nomatch heq
  | yes =>
      refine ⟨eq_quoted_of_tokens (forall_mem_of_all rfl) hpasses, Part.mute_value ?_ rfl⟩
      exact mute_of_isScalar rfl fun _ heq => nomatch heq
  | no =>
      refine ⟨eq_quoted_of_tokens (forall_mem_of_all rfl) hpasses, Part.mute_value ?_ rfl⟩
      exact mute_of_isScalar rfl fun _ heq => nomatch heq
  | negative hdigits =>
      have hrest := passes_of_token rfl hpasses
      exact ⟨eq_quoted_of_tokens hdigits.isToken hrest,
        Part.mute_value (mute_of_digits hdigits) hdigits.isScalar⟩
  | number _ hdigits =>
      exact ⟨eq_quoted_of_tokens hdigits.isToken hpasses,
        Part.mute_value (mute_of_digits hdigits) hdigits.isScalar⟩
  | text hq =>
      rcases hq.tokens hpasses with ⟨hl, htokens⟩
      refine ⟨hl, Part.mute_value ?_ rfl⟩
      refine mute_of_isScalar rfl ?_
      intro s hs
      cases hs
      exact ofName?_of_tokens htokens
  | noItems ha =>
      have hclose := passes_of_tokens ha.isToken (passes_of_token rfl hpasses)
      exact ⟨eq_quoted_of_tokens (forall_mem_of_all rfl) hclose,
        Part.mute_list (List.forall_mem_nil _)⟩
  | someItems ha _ _ ihs iht =>
      have hinside := passes_of_tokens ha.isToken (passes_of_token rfl hpasses)
      rcases hinside.exists_of_append with ⟨l', hfirst, hrest⟩
      rcases ihs hfirst with ⟨rfl, hv, _⟩
      rcases iht hrest with ⟨hl, hvs⟩
      exact ⟨hl, Part.mute_list (List.forall_mem_cons.2 ⟨hv, hvs⟩)⟩
  | endOfItems ha =>
      have hclose := passes_of_tokens ha.isToken hpasses
      exact ⟨eq_quoted_of_tokens (forall_mem_of_all rfl) hclose, List.forall_mem_nil _⟩
  | nextItem ha hb _ _ ihs iht =>
      have hcomma := passes_of_token rfl (passes_of_tokens ha.isToken hpasses)
      have hitem := passes_of_tokens hb.isToken hcomma
      rcases hitem.exists_of_append with ⟨l', hfirst, hrest⟩
      rcases ihs hfirst with ⟨rfl, hv, _⟩
      rcases iht hrest with ⟨hl, hvs⟩
      exact ⟨hl, List.forall_mem_cons.2 ⟨hv, hvs⟩⟩
  | @field depth q a b s name v hq ha hb _ ihs =>
      rw [← List.cons_append] at hpasses
      rcases hpasses.exists_of_append with ⟨l', hname, hrest⟩
      rcases hq.tokens hname with ⟨rfl, htokens⟩
      have hcolon := passes_of_token rfl (passes_of_tokens ha.isToken hrest)
      rcases ihs (passes_of_tokens hb.isToken hcolon) with ⟨hl, _⟩
      exact ⟨hl, ne_type_of_tokens htokens⟩
  | noFields ha =>
      have hclose := passes_of_tokens ha.isToken (passes_of_token rfl hpasses)
      exact ⟨eq_quoted_of_tokens (forall_mem_of_all rfl) hclose,
        @Part.mute_object [] (List.forall_mem_nil _)⟩
  | @someFields depth a s t name v fs ha _ _ ihs iht =>
      have hinside := passes_of_tokens ha.isToken (passes_of_token rfl hpasses)
      rcases hinside.exists_of_append with ⟨l', hfirst, hrest⟩
      rcases ihs hfirst with ⟨rfl, hname⟩
      rcases iht hrest with ⟨hl, hfs⟩
      exact ⟨hl, Part.mute_object (List.forall_mem_cons.2 ⟨hname, hfs⟩)⟩
  | endOfFields ha =>
      have hclose := passes_of_tokens ha.isToken hpasses
      exact ⟨eq_quoted_of_tokens (forall_mem_of_all rfl) hclose, List.forall_mem_nil _⟩
  | nextField ha hb _ _ ihs iht =>
      have hcomma := passes_of_token rfl (passes_of_tokens ha.isToken hpasses)
      have hfield := passes_of_tokens hb.isToken hcomma
      rcases hfield.exists_of_append with ⟨l', hfirst, hrest⟩
      rcases ihs hfirst with ⟨rfl, hname⟩
      rcases iht hrest with ⟨hl, hfs⟩
      exact ⟨hl, List.forall_mem_cons.2 ⟨hname, hfs⟩⟩

theorem ofItems_ne_ok {v : Json} (h : forall m, Decode.message v ≠ .ok m) {index : Nat}
    {rest : List Json} {ms : List Message} : Response.ofItems index (v :: rest) ≠ .ok ms := by
  intro hok
  rw [Response.ofItems] at hok
  cases hv : Decode.message v with
  | ok m => exact h m hv
  | error e =>
      rw [hv] at hok
      cases hok

theorem ofJson_ne_ok {v : Json} (h : forall m, Decode.message v ≠ .ok m)
    (harray : forall vs, v ≠ .array vs) {ms : List Message} : Response.ofJson v ≠ .ok ms := by
  cases v with
  | array vs => exact absurd rfl (harray vs)
  | null => exact @ofItems_ne_ok _ h 0 [] ms
  | bool b => exact @ofItems_ne_ok _ h 0 [] ms
  | int n => exact @ofItems_ne_ok _ h 0 [] ms
  | float f => exact @ofItems_ne_ok _ h 0 [] ms
  | text s => exact @ofItems_ne_ok _ h 0 [] ms
  | object fields => exact @ofItems_ne_ok _ h 0 [] ms

/-- A document that begins inside a string of another one brings no messages. -/
theorem messages_of_inside_out {text : Bytes} {v : Json} {l : Lexical}
    (h : ofBytes text = .ok v) (hpasses : Lexical.Passes .quoted text l) {ms : List Message}
    (hms : Response.ofJson v = .ok ms) : ms = [] := by
  rcases (ofBytes_eq_ok_iff _ _).1 h with ⟨a, s, b, rfl, ha, _, hs⟩
  rcases (passes_of_tokens ha.isToken hpasses).exists_of_append with ⟨l', hinside, _⟩
  rcases (hs.mute hinside).2 with ⟨hmute, hitems⟩
  by_cases harray : exists items, v = .array items
  · rcases harray with ⟨items, rfl⟩
    cases items with
    | nil =>
        cases hms
        rfl
    | cons w rest =>
        exact absurd hms (ofItems_ne_ok (hitems _ rfl w List.mem_cons_self).message)
  · exact absurd hms (ofJson_ne_ok hmute.message fun vs hvs => harray ⟨vs, hvs⟩)

end Json
end SurfaceFeed
