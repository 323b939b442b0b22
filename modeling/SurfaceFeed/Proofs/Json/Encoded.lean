import SurfaceFeed.Proofs.Json.Reading
import SurfaceFeed.Proofs.Text.Utf8

/-!
# Documents are encoded texts

## Strings

The reader looks at the bytes of a string once its escapes are gone.  An escape
stands for a whole character, so it cannot hide half of one: the text of a string
is sound where its bytes are.
-/

namespace SurfaceFeed
namespace Text

def Encoded (s : Bytes) : Prop :=
  exists cs, s = encode cs

theorem encoded_nil : Encoded [] :=
  ⟨[], rfl⟩

theorem Encoded.append {a b : Bytes} (ha : Encoded a) (hb : Encoded b) : Encoded (a ++ b) := by
  rcases ha with ⟨as, rfl⟩
  rcases hb with ⟨bs, rfl⟩
  exact ⟨as ++ bs, (encode_append as bs).symm⟩

@[simp] theorem encode_singleton (c : Char) : encode [c] = String.utf8EncodeChar c := by
  rw [encode_cons]
  exact List.append_nil _

theorem encodeChar_of_ascii {b : UInt8} (h : b.toNat < 0x80) :
    String.utf8EncodeChar (Char.ofNat b.toNat) = [b] :=
  (Spells.single h).encodeChar_eq

theorem encoded_of_ascii {s : Bytes} (h : forall b, b ∈ s -> b.toNat < 0x80) : Encoded s := by
  induction s with
  | nil => exact encoded_nil
  | cons b s ih =>
      have hfirst : Encoded [b] :=
        ⟨[Char.ofNat b.toNat], by
          rw [encode_singleton, encodeChar_of_ascii (h b List.mem_cons_self)]⟩
      exact hfirst.append (ih fun x hx => h x (List.mem_cons_of_mem b hx))

theorem Encoded.of_encodeChar_append {c : Char} {rest : Bytes}
    (h : Encoded (String.utf8EncodeChar c ++ rest)) : Encoded rest := by
  rcases h with ⟨cs, hcs⟩
  have hpieces := (spells_encodeChar c).pieces_append rest
  have hwhole := pieces_encode_append cs []
  rw [List.append_nil, ← hcs, pieces, hpieces] at hwhole
  cases cs with
  | nil => cases hwhole
  | cons d cs =>
      have hrest := (List.cons.inj hwhole).2
      exact ⟨cs, eq_encode_of_pieces (hrest.trans (List.append_nil _))⟩

/-- A character of an encoded text that follows other bytes follows whole characters. -/
theorem Encoded.of_append_encodeChar {pre rest : Bytes} {c : Char}
    (h : Encoded (pre ++ (String.utf8EncodeChar c ++ rest))) : Encoded pre ∧ Encoded rest := by
  rcases h with ⟨cs, hcs⟩
  rcases encode_eq_append hcs.symm with
    ⟨us, ws, _, hus, hws⟩ | ⟨us, d, ws, x, y, _, hd, hx, hy, _, hw⟩
  · exact ⟨⟨us, hus⟩, Encoded.of_encodeChar_append ⟨ws, hws⟩⟩
  · -- the character would begin inside another one
    exfalso
    cases y with
    | nil => exact hy rfl
    | cons b y =>
        have hcontinuation := (bytes_of_cut hd hx hy).2 b List.mem_cons_self
        generalize hc : String.utf8EncodeChar c = s at hw
        cases s with
        | nil =>
            have hlength := congrArg List.length hc
            rw [String.length_utf8EncodeChar] at hlength
            have hpos := c.utf8Size_pos
            rw [hlength] at hpos
            cases hpos
        | cons b' s =>
            cases (List.cons.inj hw).1
            exact not_isContinuation_of_encodeChar hc hcontinuation

end Text

namespace Json

open Text

theorem ascii_of_hexValue {b : UInt8} {n : Nat} (h : hexValue? b = some n) :
    b.toNat < 0x80 := by
  simp only [hexValue?, Bool.and_eq_true, decide_eq_true_eq, UInt8.le_iff_toNat_le,
    UInt8.reduceToNat] at h
  split at h
  · omega
  split at h
  · omega
  split at h
  · omega
  · cases h

theorem ascii_of_shortEscape {b c : UInt8} (h : Reader.shortEscape? b = some c) :
    b.toNat < 0x80 ∧ c.toNat < 0x80 := by
  simp only [Reader.shortEscape?, Bool.or_eq_true, beq_iff_eq] at h
  split at h
  · next hb =>
      cases h
      rcases hb with (rfl | rfl) | rfl <;> exact ⟨by decide, by decide⟩
  repeat' split at h
  all_goals first
    | cases h
      subst_vars
      exact ⟨by decide, by decide⟩
    | cases h

theorem Escape.exists_char {e out : Bytes} (h : Escape e out) :
    (forall b, b ∈ e -> b.toNat < 0x80) ∧ exists c, out = String.utf8EncodeChar c := by
  cases h with
  | @short b c _ hshort =>
      rcases ascii_of_shortEscape hshort with ⟨hb, hc⟩
      refine ⟨?_, Char.ofNat c.toNat, (encodeChar_of_ascii hc).symm⟩
      intro x hx
      rw [List.mem_singleton] at hx
      rwa [hx]
  | @code a b c d n hhex _ _ =>
      refine ⟨?_, Char.ofNat n, rfl⟩
      intro x hx
      rcases List.mem_cons.1 hx with rfl | hx
      · decide
      · rcases exists_hexValue_of_mem hhex x hx with ⟨k, hk⟩
        exact ascii_of_hexValue hk
  | @pair a b c d a' b' c' d' n n' hhex _ _ hhex' _ =>
      refine ⟨?_, Char.ofNat (Reader.pairCode n n'), rfl⟩
      intro x hx
      have hsplit : x ∈ 0x75 :: ([a, b, c, d] ++ (0x5c :: 0x75 :: [a', b', c', d'])) := hx
      rcases List.mem_cons.1 hsplit with rfl | hx
      · decide
      rcases List.mem_append.1 hx with hx | hx
      · rcases exists_hexValue_of_mem hhex x hx with ⟨k, hk⟩
        exact ascii_of_hexValue hk
      rcases List.mem_cons.1 hx with rfl | hx
      · decide
      rcases List.mem_cons.1 hx with rfl | hx
      · decide
      · rcases exists_hexValue_of_mem hhex' x hx with ⟨k, hk⟩
        exact ascii_of_hexValue hk

theorem Body.encoded {s out : Bytes} (h : Body s out) {pre : Bytes}
    (hout : Encoded (pre ++ out)) : Encoded (pre ++ s) := by
  induction h generalizing pre with
  | nil => exact hout
  | @byte b s out _ _ _ _ ih =>
      have hmoved : Encoded ((pre ++ [b]) ++ out) := by simpa using hout
      simpa using ih hmoved
  | @escape e s out more he _ ih =>
      rcases he.exists_char with ⟨hascii, c, rfl⟩
      rcases hout.of_append_encodeChar with ⟨hpre, hmore⟩
      have hescape : Encoded (0x5c :: e) := by
        apply encoded_of_ascii
        intro b hb
        rcases List.mem_cons.1 hb with rfl | hb
        · decide
        · exact hascii b hb
      exact hpre.append (hescape.append (@ih [] hmore))

/-! ## Documents -/

theorem Quoted.encoded {q : Bytes} {name : String} (h : Quoted q name) :
    Encoded (0x22 :: q) := by
  cases h with
  | @mk body bytes chars hbody hdecode =>
      have hbytes : Encoded ([] ++ bytes) := ⟨chars, (decode_eq_ok_iff bytes chars).1 hdecode⟩
      have hquote : Encoded [0x22] := encoded_of_ascii (forall_mem_of_all rfl)
      exact hquote.append ((hbody.encoded hbytes).append hquote)

theorem ascii_of_isToken {b : UInt8} (h : isToken b = true) : b.toNat < 0x80 := by
  simp only [isToken, Reader.isSpace, Number.isNumeric, Number.isDigit,
    Number.isExponentLetter, List.contains_iff_mem, List.mem_cons, List.not_mem_nil, or_false,
    Bool.or_eq_true, Bool.and_eq_true, decide_eq_true_eq, beq_iff_eq, UInt8.le_iff_toNat_le,
    ← UInt8.toNat_inj, UInt8.reduceToNat] at h
  omega

theorem encoded_token {b : UInt8} (h : isToken b = true) : Encoded [b] := by
  apply encoded_of_ascii
  intro x hx
  rw [List.mem_singleton.1 hx]
  exact ascii_of_isToken h

/-- Whatever bytes the reader accepts as a document encode characters. -/
theorem encoded_of_ofBytes {text : Bytes} {v : Json} (h : ofBytes text = .ok v) :
    Encoded text := by
  have hwrites := (ofBytes_eq_ok_iff _ _).1 h
  exact hwrites.of_closed encoded_nil (fun _ _ => Encoded.append) (fun _ => encoded_token)
    (fun _ _ => Quoted.encoded)

end Json
end SurfaceFeed
