import Mathlib.Data.List.Infix
import SurfaceFeed.Proofs.BareDocuments
import SurfaceFeed.Proofs.Text.Occurrence

/-!
# Documents with text around them

## Fenced blocks

The block of a fence is found by three searches, and each of them stops where the
block says it should: the text before it ends in no backtick, its body does not
begin like a tag, and a document ends in no backtick either.

## Lists in prose

A list in prose without brackets has the outermost brackets of the whole text,
whatever stands in its strings, and an object in it has a pair of braces.
-/

namespace SurfaceFeed

namespace Json

theorem Writes.getLast?_ne {text : Bytes} {v : Json} (h : Writes text v) :
    text.getLast? ≠ some 0x60 := by
  apply h.of_closed (P := fun s => s.getLast? ≠ some 0x60)
  · exact nofun
  · intro a b ha hb
    rw [List.getLast?_append]
    cases hlast : b.getLast? with
    | none => exact ha
    | some x =>
        rw [hlast] at hb
        exact hb
  · intro b hb hlast
    cases Option.some.inj hlast
    cases hb
  · intro q name hq
    cases hq with
    | mk _ _ =>
        rw [← List.cons_append, List.getLast?_concat]
        exact nofun

theorem Writes.ne_nil {text : Bytes} {v : Json} (h : Writes text v) : text ≠ [] := by
  rcases h with ⟨a, s, b, rfl, _, _, hs⟩
  rcases hs.exists_head with ⟨x, t, rfl, _⟩
  simp

end Json

namespace Response

open Text

/-! ## Fences -/

theorem eq_tick_of_mem_fence {c : Char} (h : c ∈ fence) : c = '`' := by
  have hticks : fence = List.replicate 3 '`' := rfl
  rw [hticks] at h
  exact List.eq_of_mem_replicate h

/-- The first fence of a text stands where what is before it has none and ends in no backtick. -/
theorem cut?_fence {before : List Char} (hfence : ¬ fence <:+: before)
    (htick : before.getLast? ≠ some '`') (after : List Char) :
    cut? fence (before ++ (fence ++ after)) = some (before, after) := by
  apply cut?_of_first (by decide)
  rintro back ⟨front, rfl⟩ hne hstarts
  rcases List.prefix_or_prefix_of_prefix hstarts (List.prefix_append back _) with hlong | hshort
  · exact hfence (hlong.isInfix.trans (List.suffix_append front back).isInfix)
  · -- a fence that begins before the end of `back` takes all of it for backticks
    apply htick
    rw [List.getLast?_append_of_ne_nil front hne, List.getLast?_eq_some_getLast hne,
      eq_tick_of_mem_fence (hshort.subset (List.getLast_mem hne))]

/-! ## Fenced blocks -/

/-- A tag and the body of a fenced block that is a document. -/
structure Block (tag body : List Char) (v : Json) : Prop where
  tag : forall c, c ∈ tag -> isTagChar c = true
  untagged : forall c, body.head? = some c -> isTagChar c = false
  unfenced : ¬ fence <:+: body
  reads : Json.ofBytes (encode (trim body)) = .ok v

section Block

variable {tag body : List Char} {v : Json}

theorem Block.trim_ne_nil (h : Block tag body v) : trim body ≠ [] := by
  intro hnil
  have hwrites := (Json.ofBytes_eq_ok_iff _ _).1 h.reads
  rw [hnil] at hwrites
  exact Json.Writes.ne_nil hwrites rfl

theorem Block.getLast?_ne (h : Block tag body v) : body.getLast? ≠ some '`' := by
  rcases exists_trim body with ⟨p, q, hbody, _, hq⟩
  intro hlast
  rw [hbody, ← List.append_assoc] at hlast
  cases q with
  | nil =>
    rw [List.append_nil, List.getLast?_append_of_ne_nil p h.trim_ne_nil] at hlast
    rcases List.getLast?_eq_some_iff.1 hlast with ⟨front, htrim⟩
    apply Json.Writes.getLast?_ne ((Json.ofBytes_eq_ok_iff _ _).1 h.reads)
    rw [htrim, encode_append]
    exact List.getLast?_concat
  | cons c q =>
    rw [List.getLast?_append_of_ne_nil _ (List.cons_ne_nil c q)] at hlast
    have hblank := hq '`' (List.mem_of_getLast? hlast)
    cases hblank

theorem Block.dropWhile_tag (h : Block tag body v) (after : List Char) :
    (tag ++ (body ++ after)).dropWhile isTagChar = body ++ after := by
  rw [List.dropWhile_append_of_pos h.tag]
  cases body with
  | nil => exact absurd rfl h.trim_ne_nil
  | cons c body =>
      have hc := h.untagged c rfl
      rw [List.cons_append, List.dropWhile_cons_of_neg (by rw [hc]; decide)]

theorem Block.fenced?_eq (h : Block tag body v) {before : List Char}
    (hfence : ¬ fence <:+: before) (htick : before.getLast? ≠ some '`') :
    (forall after,
      fenced? (before ++ (fence ++ (tag ++ (body ++ (fence ++ after))))) = some (trim body)) ∧
    fenced? (before ++ (fence ++ (tag ++ body))) = some (trim body) := by
  have hbody : (trim body).isEmpty = false := List.isEmpty_eq_false_iff.2 h.trim_ne_nil
  constructor
  · intro after
    simp only [fenced?, cut?_fence hfence htick, h.dropWhile_tag,
      cut?_fence h.unfenced h.getLast?_ne, hbody]
    rfl
  · have hopen := h.dropWhile_tag []
    rw [List.append_nil] at hopen
    simp only [fenced?, cut?_fence hfence htick, hopen, cut?_eq_none_iff.2 h.unfenced, hbody]
    rfl

end Block

/--
A response whose first fenced block is a document, with a tag or without one, has the messages
of this document, whatever stands before the block and behind it, and also if it is not closed.
-/
theorem ofChars_of_block {before tag body : List Char} {v : Json} (hfence : ¬ fence <:+: before)
    (htick : before.getLast? ≠ some '`') (h : Block tag body v) :
    (forall after,
      ofChars (before ++ (fence ++ (tag ++ (body ++ (fence ++ after))))) = ofJson v) ∧
    ofChars (before ++ (fence ++ (tag ++ body))) = ofJson v := by
  rcases h.fenced?_eq hfence htick with ⟨hclosed, hopen⟩
  constructor
  · intro after
    apply ofChars_of_fenced
    rw [hclosed after]
    exact document?_some h.reads
  · apply ofChars_of_fenced
    rw [hopen]
    exact document?_some h.reads

theorem block_request :
    Block "json".toList "\n\x7b\"type\":\"beginRendering\"\x7d\n".toList
      (.object [("type", .text "beginRendering")]) := by
  have htext : encode (trim "\n\x7b\"type\":\"beginRendering\"\x7d\n".toList) =
      [0x7b, 0x22, 0x74, 0x79, 0x70, 0x65, 0x22, 0x3a, 0x22, 0x62, 0x65, 0x67, 0x69, 0x6e, 0x52,
        0x65, 0x6e, 0x64, 0x65, 0x72, 0x69, 0x6e, 0x67, 0x22, 0x7d] := by
    decide +kernel
  constructor
  · exact List.all_eq_true.1 (by decide)
  · intro c hc
    cases hc
    rfl
  · decide +kernel
  · rw [htext]
    rfl

theorem ofChars_of_block_request :
    let before := "Drop [\x7b\x7d] and `[]`:\n".toList
    let body := "\n\x7b\"type\":\"beginRendering\"\x7d\n".toList
    (forall after, ofChars (before ++ (fence ++ ("json".toList ++ (body ++ (fence ++ after))))) =
      .ok [.beginRendering none]) ∧
    ofChars (before ++ (fence ++ ("json".toList ++ body))) = .ok [.beginRendering none] := by
  intro before body
  have hfence : ¬ fence <:+: before := by decide +kernel
  have htick : before.getLast? ≠ some '`' := by decide +kernel
  exact ofChars_of_block hfence htick block_request

end Response

/-! ## Lists in prose -/

namespace Text

theorem encode_injective {a b : List Char} (h : encode a = encode b) : a = b := by
  rw [← decodeLossy_encode a, h, decodeLossy_encode]

theorem exists_of_encode_eq {cs : List Char} {b : UInt8} (hb : b.toNat < 0x80) {pre rest : Bytes}
    (h : encode cs = pre ++ b :: rest) :
    exists front back, cs = front ++ Char.ofNat b.toNat :: back ∧ encode front = pre ∧
      encode back = rest := by
  have hbyte : b :: rest = String.utf8EncodeChar (Char.ofNat b.toNat) ++ rest := by
    rw [encodeChar_of_ascii hb]
    rfl
  have hwhole : Encoded (pre ++ (String.utf8EncodeChar (Char.ofNat b.toNat) ++ rest)) :=
    ⟨cs, by rw [h, hbyte]⟩
  rcases hwhole.of_append_encodeChar with ⟨⟨front, rfl⟩, back, rfl⟩
  refine ⟨front, back, encode_injective ?_, rfl, rfl⟩
  rw [h, hbyte, encode_append, encode_cons]

end Text

namespace Json

/-- A text in which a pair of braces opens and closes. -/
def Braced (text : Bytes) : Prop :=
  exists a b c, text = a ++ 0x7b :: (b ++ 0x7d :: c)

theorem Braced.append_left {text : Bytes} (h : Braced text) (front : Bytes) :
    Braced (front ++ text) := by
  rcases h with ⟨a, b, c, rfl⟩
  exact ⟨front ++ a, b, c, by simp⟩

theorem Braced.append_right {text : Bytes} (h : Braced text) (back : Bytes) :
    Braced (text ++ back) := by
  rcases h with ⟨a, b, c, rfl⟩
  exact ⟨a, b, c ++ back, by simp⟩

theorem braced_of_object {depth : Nat} {fields : List (String × Json)} {text : Bytes}
    (h : Written depth (.value (.object fields)) text) : Braced text := by
  rcases Scanner.exists_braced_of_object h with ⟨body, rfl, _⟩
  exact ⟨[], body, [], rfl⟩

theorem braced_of_items {depth : Nat} {vs : List Json} {fields : List (String × Json)}
    {text : Bytes} (h : Written depth (.items vs) text) (hmem : .object fields ∈ vs) :
    Braced text := by
  induction vs generalizing text with
  | nil => cases hmem
  | cons v vs ih =>
      cases h with
      | @nextItem _ a b s t _ _ _ _ hs ht =>
          apply Braced.append_left
          refine Braced.append_left ?_ [0x2c]
          apply Braced.append_left
          rcases List.mem_cons.1 hmem with rfl | hrest
          · exact (braced_of_object hs).append_right t
          · exact (ih ht hrest).append_left s

theorem braced_of_list {depth : Nat} {vs : List Json} {fields : List (String × Json)}
    {text : Bytes} (h : Written depth (.value (.array vs)) text) (hmem : .object fields ∈ vs) :
    Braced text := by
  cases vs with
  | nil => cases hmem
  | cons v vs =>
      rcases h.exists_of_list with ⟨below, a, t, u, _, rfl, _, ht, hu⟩
      refine Braced.append_left ?_ [0x5b]
      apply Braced.append_left
      rcases List.mem_cons.1 hmem with rfl | hrest
      · exact (braced_of_object ht).append_right u
      · exact (braced_of_items hu hrest).append_left t

theorem Space.not_mem {a : Bytes} (h : Space a) {b : UInt8} (hb : Reader.isSpace b = false) :
    b ∉ a := by
  intro hmem
  rw [h b hmem] at hb
  cases hb

end Json

namespace Response

open Text

/-- The outermost brackets of the text of a list are those of the list. -/
theorem exists_span_of_list {text : List Char} {items : List Json}
    (h : Json.ofBytes (encode text) = .ok (.array items))
    (hobject : exists fields, Json.object fields ∈ items) :
    exists span, Outermost text span ∧ Json.ofBytes (encode span) = .ok (.array items) := by
  rcases (Json.ofBytes_eq_ok_iff _ _).1 h with ⟨a, s, b, htext, ha, hb, hs⟩
  rcases hobject with ⟨fields, hfields⟩
  rcases Json.braced_of_list hs hfields with ⟨x, y, z, hbraces⟩
  rcases exists_inside_of_array hs with ⟨inside, rfl⟩
  rcases @exists_of_encode_eq text 0x5b (by decide) a _ htext with ⟨p, rest, rfl, rfl, hrest⟩
  have hclose : encode rest = inside ++ 0x5d :: b :=
    hrest.trans (List.append_assoc inside [0x5d] b)
  rcases @exists_of_encode_eq rest 0x5d (by decide) inside _ hclose with ⟨within, q, rfl, rfl, rfl⟩
  have hspan : encode ('[' :: (within ++ [']'])) = 0x5b :: (encode within ++ [0x5d]) := by
    rw [encode_cons, encode_append]
    rfl
  rw [← hspan] at hs hbraces
  rcases @exists_of_encode_eq _ 0x7b (by decide) x _ hbraces with ⟨i, back, hopen, _, hback⟩
  rcases @exists_of_encode_eq back 0x7d (by decide) y _ hback with ⟨j, k, rfl, _⟩
  refine ⟨'[' :: (within ++ [']']), ⟨⟨within, rfl⟩, ⟨i, j, k, hopen⟩, p, q, ?_, ?_, ?_⟩, ?_⟩
  · show p ++ '[' :: (within ++ ']' :: q) = p ++ ('[' :: (within ++ [']']) ++ q)
    simp
  · exact fun hmem => ha.not_mem (by decide) (@mem_encode_of_mem p 0x5b (by decide) hmem)
  · exact fun hmem => hb.not_mem (by decide) (@mem_encode_of_mem q 0x5d (by decide) hmem)
  · apply (Json.ofBytes_eq_ok_iff _ _).2
    exact ⟨[], _, [], (List.append_nil _).symm, Json.space_nil, Json.space_nil, hs⟩

theorem Outermost.surround {text span before after : List Char} (h : Outermost text span)
    (hbefore : '[' ∉ before) (hafter : ']' ∉ after) :
    Outermost (before ++ (text ++ after)) span := by
  rcases h.split with ⟨p, q, rfl, hp, hq⟩
  refine ⟨h.ends, h.braces, before ++ p, q ++ after, by simp, ?_, ?_⟩
  · exact fun hmem => (List.mem_append.1 hmem).elim hbefore hp
  · exact fun hmem => (List.mem_append.1 hmem).elim hq hafter

/--
A list with an object in it, after prose without an opening bracket and before prose without a
closing one, is found if there is no fence: the response has its messages.
-/
theorem ofChars_in_prose {before text after : List Char} {items : List Json}
    (hbefore : '[' ∉ before) (hafter : ']' ∉ after)
    (hfence : ¬ fence <:+: before ++ (text ++ after))
    (h : Json.ofBytes (encode text) = .ok (.array items))
    (hobject : exists fields, Json.object fields ∈ items) :
    ofChars (before ++ (text ++ after)) = ofJson (.array items) := by
  rcases exists_span_of_list h hobject with ⟨span, hspan, hread⟩
  have hfenced : document? (fenced? (before ++ (text ++ after))) = none := by
    rw [fenced?, cut?_eq_none_iff.2 hfence]
    rfl
  apply ofChars_of_bracketed hfenced
  rw [(bracketed?_eq_some_iff _ span).2 (hspan.surround hbefore hafter)]
  exact document?_some hread

theorem ofChars_in_prose_with_brackets :
    let text := "[\x7b\"type\":\"deleteSurface\",\"surfaceId\":\"][\"\x7d]\n".toList
    ofChars ("\"\x7b ]: ".toList ++ (text ++ "[\x7b\"".toList)) =
      .ok [.deleteSurface "]["] := by
  intro text
  have htext : encode text =
      [0x5b, 0x7b, 0x22, 0x74, 0x79, 0x70, 0x65, 0x22, 0x3a, 0x22, 0x64, 0x65, 0x6c, 0x65, 0x74,
        0x65, 0x53, 0x75, 0x72, 0x66, 0x61, 0x63, 0x65, 0x22, 0x2c, 0x22, 0x73, 0x75, 0x72, 0x66,
        0x61, 0x63, 0x65, 0x49, 0x64, 0x22, 0x3a, 0x22, 0x5d, 0x5b, 0x22, 0x7d, 0x5d, 0x0a] := by
    decide +kernel
  have hread : Json.ofBytes (encode text) = .ok (.array
      [.object [("surfaceId", .text "]["), ("type", .text "deleteSurface")]]) := by
    rw [htext]
    rfl
  have hbefore : '[' ∉ "\"\x7b ]: ".toList := by decide
  have hafter : ']' ∉ "[\x7b\"".toList := by decide
  have hfence : ¬ fence <:+: "\"\x7b ]: ".toList ++ (text ++ "[\x7b\"".toList) := by
    decide +kernel
  rw [ofChars_in_prose hbefore hafter hfence hread ⟨_, List.mem_singleton_self _⟩]
  rfl

end Response
end SurfaceFeed
