import SurfaceFeed.Json.Reader

/-!
# The texts of strings

## What is written between quotes

The body of a string is made of bytes that stand for themselves and of escapes.
The reader takes a string from the front of a text just when the text begins
with a body and a closing quote.
-/

namespace SurfaceFeed

theorem exists_ok_of_bind {ε α β : Type} {x : Except ε α} {f : α -> Except ε β} {r : β}
    (h : x >>= f = .ok r) : exists a, x = .ok a ∧ f a = .ok r := by
  cases x with
  | error e => cases h
  | ok a => exact ⟨a, rfl, h⟩

theorem forall_mem_of_all {P : UInt8 -> Prop} [DecidablePred P] {s : Bytes}
    (h : s.all (fun b => decide (P b)) = true) : forall b, b ∈ s -> P b :=
  fun b hb => of_decide_eq_true (List.all_eq_true.1 h b hb)

namespace Json

/-! ## Escapes -/

/-- What follows a backslash, and the bytes that it stands for. -/
inductive Escape : Bytes -> Bytes -> Prop where
  | short {b c : UInt8} :
      b ≠ 0x75 -> Reader.shortEscape? b = some c -> Escape [b] [c]
  | code {a b c d : UInt8} {n : Nat} :
      Text.hexValue4? a b c d = some n -> Reader.isTrailing n = false ->
      Reader.isLeading n = false -> Escape [0x75, a, b, c, d] (Reader.encodeCode n)
  | pair {a b c d a' b' c' d' : UInt8} {n n' : Nat} :
      Text.hexValue4? a b c d = some n -> Reader.isTrailing n = false ->
      Reader.isLeading n = true ->
      Text.hexValue4? a' b' c' d' = some n' -> Reader.isTrailing n' = true ->
      Escape [0x75, a, b, c, d, 0x5c, 0x75, a', b', c', d']
        (Reader.encodeCode (Reader.pairCode n n'))

theorem exists_hexValue_of_mem {a b c d : UInt8} {n : Nat}
    (h : Text.hexValue4? a b c d = some n) :
    forall x, x ∈ [a, b, c, d] -> exists k, Text.hexValue? x = some k := by
  simp only [Text.hexValue4?, Option.bind_eq_bind, Option.bind_eq_some_iff] at h
  rcases h with ⟨i, hi, j, hj, k, hk, l, hl, _⟩
  intro x hx
  simp only [List.mem_cons, List.not_mem_nil, or_false] at hx
  rcases hx with rfl | rfl | rfl | rfl
  · exact ⟨i, hi⟩
  · exact ⟨j, hj⟩
  · exact ⟨k, hk⟩
  · exact ⟨l, hl⟩

theorem hexEscape_cons {a b c d : UInt8} {n : Nat} (h : Text.hexValue4? a b c d = some n)
    (rest : Bytes) : Reader.hexEscape (a :: b :: c :: d :: rest) = .ok (n, rest) := by
  simp [Reader.hexEscape, h]

theorem exists_hex_of_hexEscape {s rest : Bytes} {n : Nat}
    (h : Reader.hexEscape s = .ok (n, rest)) :
    exists a b c d, s = a :: b :: c :: d :: rest ∧ Text.hexValue4? a b c d = some n := by
  match s with
  | a :: b :: c :: d :: rest' =>
      simp only [Reader.hexEscape] at h
      split at h
      · next n' hn =>
          cases h
          exact ⟨a, b, c, d, rfl, hn⟩
      · cases h
  | [] => cases h
  | [_] => cases h
  | [_, _] => cases h
  | [_, _, _] => cases h

theorem Escape.escape_append {e out : Bytes} (h : Escape e out) (rest : Bytes) :
    Reader.escape (e ++ rest) = .ok (out, rest) := by
  cases h with
  | short hne hshort => simp [Reader.escape, hne, hshort]
  | code hhex htrailing hleading =>
      simp [Reader.escape, Reader.codeEscape, hexEscape_cons hhex, bind, Except.bind,
        htrailing, hleading]
  | pair hhex htrailing hleading hhex' htrailing' =>
      simp [Reader.escape, Reader.codeEscape, hexEscape_cons hhex, bind, Except.bind,
        htrailing, hleading, Reader.trailingEscape, hexEscape_cons hhex', htrailing']

theorem exists_escape_of_trailingEscape {leading : Nat} {s out rest : Bytes}
    (h : Reader.trailingEscape leading s = .ok (out, rest)) :
    exists a b c d n, s = 0x5c :: 0x75 :: a :: b :: c :: d :: rest ∧
      Text.hexValue4? a b c d = some n ∧ Reader.isTrailing n = true ∧
      out = Reader.encodeCode (Reader.pairCode leading n) := by
  match s with
  | [] => cases h
  | x :: s =>
      simp only [Reader.trailingEscape] at h
      split at h
      · next hx =>
          split at h
          · cases h
          · next y s =>
              split at h
              · next hy =>
                  rcases exists_ok_of_bind h with ⟨⟨n, s'⟩, hhex, hout⟩
                  rcases exists_hex_of_hexEscape hhex with ⟨a, b, c, d, rfl, hn⟩
                  dsimp only at hout
                  split at hout
                  · next htrailing =>
                      simp only [Except.ok.injEq, Prod.mk.injEq] at hout
                      rcases hout with ⟨rfl, rfl⟩
                      rw [eq_of_beq hx, eq_of_beq hy]
                      exact ⟨a, b, c, d, n, rfl, hn, htrailing, rfl⟩
                  · cases hout
              · cases h
      · cases h

theorem exists_escape_of_escape {s out rest : Bytes}
    (h : Reader.escape s = .ok (out, rest)) :
    exists e, s = e ++ rest ∧ Escape e out := by
  match s with
  | [] => cases h
  | x :: s =>
      simp only [Reader.escape] at h
      split at h
      · next hx =>
          rcases exists_ok_of_bind h with ⟨⟨n, s'⟩, hhex, hout⟩
          rcases exists_hex_of_hexEscape hhex with ⟨a, b, c, d, rfl, hn⟩
          rw [eq_of_beq hx]
          cases htrailing : Reader.isTrailing n with
          | true =>
              simp only [htrailing, if_true] at hout
              cases hout
          | false =>
              cases hleading : Reader.isLeading n with
              | false =>
                  simp only [htrailing, hleading, Bool.false_eq_true, if_false,
                    Except.ok.injEq, Prod.mk.injEq] at hout
                  rcases hout with ⟨rfl, rfl⟩
                  exact ⟨[0x75, a, b, c, d], rfl, .code hn htrailing hleading⟩
              | true =>
                  simp only [htrailing, hleading] at hout
                  rcases exists_escape_of_trailingEscape hout with
                    ⟨a', b', c', d', n', rfl, hn', htrailing', hpair⟩
                  rw [hpair]
                  exact ⟨[0x75, a, b, c, d, 0x5c, 0x75, a', b', c', d'], rfl,
                    .pair hn htrailing hleading hn' htrailing'⟩
      · next hx =>
          split at h
          · next c hc =>
              cases h
              exact ⟨[x], rfl, .short (by simpa using hx) hc⟩
          · cases h

/-! ## Bodies -/

inductive Body : Bytes -> Bytes -> Prop where
  | nil : Body [] []
  | byte {b : UInt8} {s out : Bytes} :
      b ≠ 0x22 -> b ≠ 0x5c -> 0x20 ≤ b -> Body s out -> Body (b :: s) (b :: out)
  | escape {e s out more : Bytes} :
      Escape e out -> Body s more -> Body (0x5c :: (e ++ s)) (out ++ more)

theorem Body.stringBytes_append {s out : Bytes} (h : Body s out) (rest : Bytes)
    {fuel : Nat} (hfuel : s.length < fuel) :
    Reader.stringBytes fuel (s ++ 0x22 :: rest) = .ok (out, rest) := by
  induction h generalizing fuel with
  | nil =>
      cases fuel with
      | zero => cases hfuel
      | succ fuel => rfl
  | @byte x s out hquote hslash hlow _ ih =>
      cases fuel with
      | zero => cases hfuel
      | succ fuel =>
          have hlow' : ¬ x < 0x20 := UInt8.not_lt.2 hlow
          have hrest := @ih fuel (by simpa using hfuel)
          simp [Reader.stringBytes, hquote, hslash, hlow', hrest, bind, Except.bind]
  | @escape e s out more he _ ih =>
      cases fuel with
      | zero => cases hfuel
      | succ fuel =>
          have hrest := @ih fuel (by
            simp only [List.length_cons, List.length_append] at hfuel
            omega)
          simp [Reader.stringBytes, he.escape_append, hrest, bind, Except.bind]

theorem exists_body_of_stringBytes {fuel : Nat} {s out rest : Bytes}
    (h : Reader.stringBytes fuel s = .ok (out, rest)) :
    exists body, s = body ++ 0x22 :: rest ∧ Body body out := by
  induction fuel generalizing s out with
  | zero => cases h
  | succ fuel ih =>
      match s with
      | [] => cases h
      | b :: s =>
          simp only [Reader.stringBytes] at h
          split at h
          · next hquote =>
              cases h
              exact ⟨[], by rw [eq_of_beq hquote]; rfl, .nil⟩
          · next hquote =>
              split at h
              · next hslash =>
                  rcases exists_ok_of_bind h with ⟨⟨first, s'⟩, he, hnext⟩
                  rcases exists_ok_of_bind hnext with ⟨⟨more, s''⟩, hmore, hout⟩
                  cases hout
                  rcases exists_escape_of_escape he with ⟨e, rfl, hescape⟩
                  rcases ih hmore with ⟨body, hs, hbody⟩
                  have hrest : s' = body ++ 0x22 :: s'' := hs
                  refine ⟨0x5c :: (e ++ body), ?_, .escape hescape hbody⟩
                  simp [eq_of_beq hslash, hrest]
              · next hslash =>
                  split at h
                  · cases h
                  · next hlow =>
                      rcases exists_ok_of_bind h with ⟨⟨more, s'⟩, hmore, hout⟩
                      cases hout
                      rcases ih hmore with ⟨body, hs, hbody⟩
                      refine ⟨b :: body, by simp [hs], .byte ?_ ?_ ?_ hbody⟩
                      · simpa using hquote
                      · simpa using hslash
                      · exact UInt8.not_lt.1 hlow

/-! ## Strings -/

/-- A string after its opening quote, with the closing one. -/
inductive Quoted : Bytes -> String -> Prop where
  | mk {body bytes : Bytes} {chars : List Char} :
      Body body bytes -> Text.decode bytes = .ok chars ->
      Quoted (body ++ [0x22]) (String.ofList chars)

theorem Quoted.string_append {q : Bytes} {s : String} (h : Quoted q s) (rest : Bytes)
    {fuel : Nat} (hfuel : q.length ≤ fuel) :
    Reader.string fuel (q ++ rest) = .ok (s, rest) := by
  cases h with
  | mk hbody hdecode =>
      have hbytes := @Body.stringBytes_append _ _ hbody rest fuel (by
        simp only [List.length_append, List.length_singleton] at hfuel
        omega)
      simp [Reader.string, hbytes, hdecode, bind, Except.bind]

theorem exists_quoted_of_string {fuel : Nat} {s rest : Bytes} {name : String}
    (h : Reader.string fuel s = .ok (name, rest)) :
    exists q, s = q ++ rest ∧ Quoted q name := by
  rw [Reader.string] at h
  rcases exists_ok_of_bind h with ⟨⟨bytes, rest'⟩, hbytes, hout⟩
  rcases exists_body_of_stringBytes hbytes with ⟨body, rfl, hbody⟩
  dsimp only at hout
  split at hout
  · next chars hdecode =>
      cases hout
      exact ⟨body ++ [0x22], by simp, .mk hbody hdecode⟩
  · cases hout

end Json
end SurfaceFeed
