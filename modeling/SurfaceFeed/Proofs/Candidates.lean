import SurfaceFeed.Proofs.Scanner.Lexical

/-!
# Where messages are looked for

## Candidates in a text

A candidate is a piece of the text that it was found in.  What is cut off around
it never has a quote, a backslash or a brace, except that a fence may follow any
text.  But a fence can only stand inside a string, and so nothing comes of it in
a text that has its bytes in their places.
-/

namespace SurfaceFeed
namespace Text

/-! ## Characters and bytes -/

theorem exists_cons_of_encodeChar (c : Char) :
    exists b tail, String.utf8EncodeChar c = b :: tail := by
  have hpos := c.utf8Size_pos
  rw [← String.length_utf8EncodeChar] at hpos
  exact List.exists_cons_of_length_pos hpos

theorem eq_ofNat_of_mem_encodeChar {c : Char} {b : UInt8} (h : b ∈ String.utf8EncodeChar c)
    (hb : b.toNat < 0x80) : c = Char.ofNat b.toNat := by
  have hspells := spells_encodeChar c
  cases hbytes : String.utf8EncodeChar c with
  | nil =>
      rw [hbytes] at h
      cases h
  | cons x tail =>
      rw [hbytes] at h hspells
      rcases hspells.bytes with ⟨rfl, _, hn⟩ | ⟨_, hlead, htail⟩
      · rw [List.mem_singleton.1 h, ← hn, Char.ofNat_toNat]
      · exfalso
        rcases List.mem_cons.1 h with rfl | hmem
        · omega
        · have hlow := (htail b hmem).1
          omega

theorem mem_of_mem_encode {cs : List Char} {b : UInt8} (h : b ∈ encode cs)
    (hb : b.toNat < 0x80) : Char.ofNat b.toNat ∈ cs := by
  rcases List.mem_flatMap.1 h with ⟨c, hc, hmem⟩
  rw [← eq_ofNat_of_mem_encodeChar hmem hb]
  exact hc

theorem mem_encode_of_mem {cs : List Char} {b : UInt8} (hb : b.toNat < 0x80)
    (h : Char.ofNat b.toNat ∈ cs) : b ∈ encode cs := by
  refine List.mem_flatMap.2 ⟨_, h, ?_⟩
  rw [encodeChar_of_ascii hb]
  exact List.mem_singleton_self b

/-! ## Trimming and cutting -/

def Blank (cs : List Char) : Prop :=
  forall c, c ∈ cs -> isBlank c = true

theorem Blank.append {a b : List Char} (ha : Blank a) (hb : Blank b) : Blank (a ++ b) := by
  intro c hc
  rcases List.mem_append.1 hc with hc | hc
  · exact ha c hc
  · exact hb c hc

theorem exists_trimStart (cs : List Char) : exists p, cs = p ++ trimStart cs ∧ Blank p :=
  ⟨cs.takeWhile isBlank, List.takeWhile_append_dropWhile.symm,
    List.all_eq_true.1 List.all_takeWhile⟩

theorem exists_trimEnd (cs : List Char) : exists q, cs = trimEnd cs ++ q ∧ Blank q := by
  refine ⟨(cs.reverse.takeWhile isBlank).reverse, ?_, ?_⟩
  · rw [trimEnd, ← List.reverse_append, List.takeWhile_append_dropWhile, List.reverse_reverse]
  · intro c hc
    exact List.all_eq_true.1 List.all_takeWhile c (List.mem_reverse.1 hc)

theorem exists_trim (cs : List Char) :
    exists p q, cs = p ++ (trim cs ++ q) ∧ Blank p ∧ Blank q := by
  rcases exists_trimStart cs with ⟨p, hp, hblank⟩
  rcases exists_trimEnd (trimStart cs) with ⟨q, hq, hblank'⟩
  refine ⟨p, q, ?_, hblank, hblank'⟩
  rw [trim, ← hq]
  exact hp

theorem exists_trim_cons {c : Char} {cs : List Char} (hc : isBlank c = false) :
    exists inside q, trim (c :: cs) = c :: inside ∧ c :: cs = (c :: inside) ++ q ∧ Blank q := by
  rcases exists_trim (c :: cs) with ⟨p, q, htext, hp, hq⟩
  cases p with
  | cons x p =>
      have hx := hp x List.mem_cons_self
      rw [← (List.cons.inj htext).1, hc] at hx
      cases hx
  | nil =>
      rw [List.nil_append] at htext
      cases htrim : trim (c :: cs) with
      | nil =>
          rw [htrim, List.nil_append] at htext
          have hblank := hq c (by rw [← htext]; exact List.mem_cons_self)
          rw [hc] at hblank
          cases hblank
      | cons x inside =>
          rw [htrim] at htext
          rcases List.cons.inj htext with ⟨rfl, hrest⟩
          exact ⟨inside, q, rfl, by rw [hrest]; rfl, hq⟩

theorem eq_append_of_cut? {pattern cs before after : List Char}
    (h : cut? pattern cs = some (before, after)) : cs = before ++ (pattern ++ after) := by
  induction cs generalizing before with
  | nil =>
      rw [cut?] at h
      split at h
      · next hempty =>
          cases h
          rw [List.isEmpty_iff.1 hempty]
          rfl
      · cases h
  | cons c cs ih =>
      rw [cut?] at h
      split at h
      · next rest hrest =>
          cases h
          rw [List.nil_append]
          exact eq_append_of_after? hrest
      · cases hcut : cut? pattern cs with
        | none =>
            rw [hcut] at h
            cases h
        | some pieces =>
            rw [hcut] at h
            cases h
            rw [ih hcut]
            rfl

/-! ## Lexical states -/

theorem passes_encode {cs : List Char} (hquote : '"' ∉ cs) (hslash : '\\' ∉ cs) :
    Lexical.Passes .quoted (encode cs) .quoted := by
  apply Lexical.passes_quoted
  intro b hb
  constructor
  · rintro rfl
    exact hquote (mem_of_mem_encode hb (by decide))
  · rintro rfl
    exact hslash (mem_of_mem_encode hb (by decide))

theorem Blank.passes {cs : List Char} (h : Blank cs) :
    Lexical.Passes .quoted (encode cs) .quoted := by
  apply passes_encode
  · intro hmem
    exact absurd (h _ hmem) (by decide)
  · intro hmem
    exact absurd (h _ hmem) (by decide)

end Text

namespace Response

open Text

/-- A fenced block stands after a fence, tag characters and blanks. -/
theorem exists_of_fenced? {cs body : List Char} (h : fenced? cs = some body) :
    exists before tag blanks rest, cs = before ++ (fence ++ (tag ++ (blanks ++ (body ++ rest)))) ∧
      (forall c, c ∈ tag -> isTagChar c = true) ∧ Blank blanks := by
  rw [fenced?] at h
  split at h
  · cases h
  · next before after hcut =>
      have htag : after = after.takeWhile isTagChar ++ after.dropWhile isTagChar :=
        List.takeWhile_append_dropWhile.symm
      have hinside : exists inside rest,
          after.dropWhile isTagChar = inside ++ rest ∧ body = trim inside := by
        dsimp only at h
        split at h
        · next inside rest hend =>
            split at h
            · cases h
            · cases h
              exact ⟨inside, _, eq_append_of_cut? hend, rfl⟩
        · split at h
          · cases h
          · cases h
            exact ⟨_, [], (List.append_nil _).symm, rfl⟩
      rcases hinside with ⟨inside, rest, hdrop, rfl⟩
      rcases exists_trim inside with ⟨p, q, hp, hblank, _⟩
      refine ⟨before, after.takeWhile isTagChar, p, q ++ rest, ?_,
        List.all_eq_true.1 List.all_takeWhile, hblank⟩
      rw [eq_append_of_cut? hcut]
      have hafter : after = after.takeWhile isTagChar ++ (p ++ (trim inside ++ (q ++ rest))) := by
        rw [← List.append_assoc (trim inside), ← List.append_assoc p, ← hp, ← hdrop]
        exact htag
      rw [← hafter]

theorem exists_of_bracketed? {cs span : List Char} (h : bracketed? cs = some span) :
    exists before inside rest, cs = before ++ (span ++ rest) ∧ span = '[' :: inside ∧
      '[' ∉ before := by
  rw [bracketed?] at h
  split at h
  · next hbraces =>
      have hspan : span = uptoLast ']' (fromFirst '[' cs) := (Option.some.inj h).symm
      have hfirst : cs = cs.takeWhile (· != '[') ++ fromFirst '[' cs :=
        List.takeWhile_append_dropWhile.symm
      have hlast : exists rest, fromFirst '[' cs = span ++ rest := by
        refine ⟨((fromFirst '[' cs).reverse.takeWhile (· != ']')).reverse, ?_⟩
        rw [hspan, uptoLast, ← List.reverse_append, List.takeWhile_append_dropWhile,
          List.reverse_reverse]
      rcases hlast with ⟨rest, hrest⟩
      have hbefore : '[' ∉ cs.takeWhile (· != '[') := by
        intro hmem
        have hne := List.all_eq_true.1 List.all_takeWhile '[' hmem
        exact absurd hne (by decide)
      cases hcases : span with
      | nil =>
          rw [← hspan, hcases] at hbraces
          cases hbraces
      | cons c inside =>
          have hhead := List.head?_dropWhile_not (· != '[') cs
          rw [fromFirst] at hrest
          rw [hrest, hcases] at hhead
          have hc : c = '[' := by simpa using hhead
          refine ⟨cs.takeWhile (· != '['), inside, rest, ?_, by rw [hc], hbefore⟩
          rw [← hcases, ← hrest]
          exact hfirst
  · cases h

/-! ## Candidates and lexical states -/

theorem passes_of_fenced? {cs body : List Char} {l l' : Lexical} (h : fenced? cs = some body)
    (hpasses : Lexical.Passes l (encode cs) l') :
    exists l'', Lexical.Passes .quoted (encode body) l'' := by
  rcases exists_of_fenced? h with ⟨before, tag, blanks, rest, rfl, htag, hblanks⟩
  simp only [encode_append] at hpasses
  rcases hpasses.exists_of_append with ⟨l₁, _, hfence⟩
  rcases hfence.exists_of_append with ⟨l₂, hopen, hafter⟩
  have hl₁ : l₁ = .quoted := by
    have hbytes : encode fence = [0x60, 0x60, 0x60] := by decide
    rw [hbytes] at hopen
    cases hopen with
    | cons hadmits _ =>
        cases l₁ with
        | plain => cases hadmits
        | quoted => rfl
        | escaped => cases hadmits
  subst hl₁
  cases hopen.unique (passes_encode (by decide) (by decide))
  rcases hafter.exists_of_append with ⟨l₃, htags, hafter⟩
  have htag' : Lexical.Passes .quoted (encode tag) .quoted := by
    apply passes_encode
    · intro hmem
      exact absurd (htag _ hmem) (by decide)
    · intro hmem
      exact absurd (htag _ hmem) (by decide)
  cases htags.unique htag'
  rcases hafter.exists_of_append with ⟨l₄, hblank, hafter⟩
  cases hblank.unique hblanks.passes
  rcases hafter.exists_of_append with ⟨l₅, hbody, _⟩
  exact ⟨l₅, hbody⟩

/-! ## What is recovered -/

def recovered (cs : List Char) : List Message :=
  (ofChars cs).toOption.getD []

def messagesOf (v : Json) : List Message :=
  (ofJson v).toOption.getD []

/-- The document that a candidate is, if it is one. -/
def document? (candidate : Option (List Char)) : Option Json :=
  candidate.bind fun cs => (Json.ofBytes (encode cs)).toOption

/-- The messages of the bracketed span, which a fenced document keeps from being looked at. -/
def strays (cs : List Char) : List Message :=
  match document? (fenced? cs), document? (bracketed? cs) with
  | none, some v => messagesOf v
  | _, _ => []

def ofWhole (cs : List Char) : Except ParseError (List Message) :=
  match Json.ofBytes (encode (trim cs)) with
  | .ok v => ofJson v
  | .error e => .error (.notJson e)

theorem ofWhole_of_ok {cs : List Char} {v : Json} (h : Json.ofBytes (encode (trim cs)) = .ok v) :
    ofWhole cs = ofJson v := by
  rw [ofWhole, h]

theorem document?_eq_some {candidate : Option (List Char)} {v : Json}
    (h : document? candidate = some v) :
    exists cs, candidate = some cs ∧ Json.ofBytes (encode cs) = .ok v := by
  cases candidate with
  | none => cases h
  | some cs =>
      refine ⟨cs, rfl, ?_⟩
      rw [document?, Option.bind_some] at h
      cases hread : Json.ofBytes (encode cs) with
      | ok w =>
          rw [hread] at h
          cases h
          rfl
      | error e =>
          rw [hread] at h
          cases h

theorem document?_some {cs : List Char} {v : Json} (h : Json.ofBytes (encode cs) = .ok v) :
    document? (some cs) = some v := by
  rw [document?, Option.bind_some, h]
  rfl

theorem document?_of_encode {candidate : Option (List Char)} {text : Bytes}
    (h : candidate.map encode = some text) :
    document? candidate = (Json.ofBytes text).toOption := by
  rcases Option.map_eq_some_iff.1 h with ⟨cs, rfl, rfl⟩
  rfl

theorem firstDocument?_candidates (cs : List Char) :
    firstDocument? (candidates cs) = (document? (fenced? cs)).or (document? (bracketed? cs)) := by
  have hlist : forall candidate : Option (List Char), forall rest,
      firstDocument? (candidate.toList ++ rest) =
        (document? candidate).or (firstDocument? rest) := by
    intro candidate rest
    cases candidate with
    | none => rfl
    | some span =>
        have hlist : (some span).toList ++ rest = span :: rest := rfl
        rw [hlist, firstDocument?, document?, Option.bind_some]
        cases Json.ofBytes (encode span) with
        | ok v => rfl
        | error e => rfl
  have hlast := hlist (bracketed? cs) []
  rw [List.append_nil] at hlast
  rw [candidates, hlist, hlast]
  cases document? (bracketed? cs) <;> rfl

theorem ofChars_of_fenced {cs : List Char} {v : Json} (h : document? (fenced? cs) = some v) :
    ofChars cs = ofJson v := by
  rw [ofChars, firstDocument?_candidates, h]
  rfl

theorem ofChars_of_bracketed {cs : List Char} {v : Json} (hfenced : document? (fenced? cs) = none)
    (h : document? (bracketed? cs) = some v) : ofChars cs = ofJson v := by
  rw [ofChars, firstDocument?_candidates, hfenced, h]
  rfl

theorem ofChars_of_whole {cs : List Char} (hfenced : document? (fenced? cs) = none)
    (hbracketed : document? (bracketed? cs) = none) :
    ofChars cs = ofWhole cs := by
  rw [ofChars, firstDocument?_candidates, hfenced, hbracketed]
  rfl

/-- What is recovered of a text whose fences bring nothing and that is no document. -/
theorem recovered_eq_strays {cs : List Char}
    (hfenced : forall v, document? (fenced? cs) = some v -> messagesOf v = [])
    (hwhole : forall v, Json.ofBytes (encode (trim cs)) = .ok v -> messagesOf v = []) :
    recovered cs = strays cs := by
  rw [recovered, ofChars, strays, firstDocument?_candidates]
  cases hf : document? (fenced? cs) with
  | some v => exact hfenced v hf
  | none =>
      cases hb : document? (bracketed? cs) with
      | some v => rfl
      | none =>
          dsimp only [Option.or_none]
          cases hread : Json.ofBytes (encode (trim cs)) with
          | error e => rfl
          | ok v => exact hwhole v hread

theorem messagesOf_eq_nil {v : Json} (h : forall ms, ofJson v = .ok ms -> ms = []) :
    messagesOf v = [] := by
  rw [messagesOf]
  cases hms : ofJson v with
  | ok ms => exact h ms hms
  | error e => rfl

theorem messagesOf_fenced? {cs : List Char} {l l' : Lexical}
    (hpasses : Lexical.Passes l (encode cs) l') {v : Json}
    (h : document? (fenced? cs) = some v) : messagesOf v = [] := by
  rcases document?_eq_some h with ⟨body, hbody, hv⟩
  rcases passes_of_fenced? hbody hpasses with ⟨l'', hinside⟩
  exact messagesOf_eq_nil fun ms hms => Json.messages_of_inside_out hv hinside hms

theorem messagesOf_of_inside_out {cs : List Char} {l : Lexical}
    (hpasses : Lexical.Passes .quoted (encode cs) l) {v : Json}
    (hv : Json.ofBytes (encode cs) = .ok v) : messagesOf v = [] :=
  messagesOf_eq_nil fun _ hms => Json.messages_of_inside_out hv hpasses hms

/-- A text that stands inside a string, with its bracketed span, brings nothing. -/
theorem recovered_of_inside_out {cs : List Char} {l : Lexical}
    (hpasses : Lexical.Passes .quoted (encode cs) l)
    (hbracketed : forall span, bracketed? cs = some span ->
      exists l', Lexical.Passes .quoted (encode span) l') : recovered cs = [] := by
  have hwhole : forall v, Json.ofBytes (encode (trim cs)) = .ok v -> messagesOf v = [] := by
    intro v hv
    rcases exists_trim cs with ⟨p, q, htext, hp, _⟩
    rw [htext, encode_append, encode_append] at hpasses
    rcases hpasses.exists_of_append with ⟨l₁, hblank, hrest⟩
    cases hblank.unique hp.passes
    rcases hrest.exists_of_append with ⟨l₂, hinside, _⟩
    exact messagesOf_of_inside_out hinside hv
  rw [recovered_eq_strays (fun v => messagesOf_fenced? hpasses) hwhole, strays]
  cases document? (fenced? cs) with
  | some v => rfl
  | none =>
      cases hb : document? (bracketed? cs) with
      | none => rfl
      | some v =>
          rcases document?_eq_some hb with ⟨span, hspan, hv⟩
          rcases hbracketed span hspan with ⟨l', hinside⟩
          exact messagesOf_of_inside_out hinside hv

theorem exists_of_bracketed?_front {cs span : List Char} (hopen : '[' ∉ cs.tail)
    (h : bracketed? cs = some span) :
    exists inside rest, cs = span ++ rest ∧ span = '[' :: inside := by
  rcases exists_of_bracketed? h with ⟨before, inside, rest, htext, hfirst, _⟩
  refine ⟨inside, rest, ?_, hfirst⟩
  cases before with
  | nil => exact htext
  | cons c before =>
      refine absurd ?_ hopen
      rw [htext, hfirst]
      simp

theorem passes_of_bracketed? {cs span : List Char} {l l' : Lexical}
    (hpasses : Lexical.Passes l (encode cs) l') (hopen : '[' ∉ cs.tail)
    (h : bracketed? cs = some span) : exists l'', Lexical.Passes l (encode span) l'' := by
  rcases exists_of_bracketed?_front hopen h with ⟨inside, rest, rfl, _⟩
  rw [encode_append] at hpasses
  rcases hpasses.exists_of_append with ⟨l₁, hinside, _⟩
  exact ⟨l₁, hinside⟩

theorem recovered_of_unquoted {cs : List Char} (hquote : '"' ∉ cs) (hslash : '\\' ∉ cs) :
    recovered cs = [] := by
  apply recovered_of_inside_out (passes_encode hquote hslash)
  intro span hspan
  rcases exists_of_bracketed? hspan with ⟨before, inside, rest, rfl, _, _⟩
  refine ⟨.quoted, passes_encode ?_ ?_⟩
  · intro hmem
    exact hquote (List.mem_append_right before (List.mem_append_left rest hmem))
  · intro hmem
    exact hslash (List.mem_append_right before (List.mem_append_left rest hmem))

theorem recovered_of_tokens {s : Bytes} (h : forall b, b ∈ s -> Json.isToken b = true) :
    recovered (trim (decodeLossy s)) = [] := by
  rcases encoded_of_ascii fun b hb => Json.ascii_of_isToken (h b hb) with ⟨cs, rfl⟩
  rw [decodeLossy_encode]
  rcases exists_trim cs with ⟨p, q, htrim, _, _⟩
  have hmem : forall c, c ∈ trim cs -> c ∈ cs := by
    intro c hc
    rw [htrim]
    exact List.mem_append_right p (List.mem_append_left q hc)
  apply recovered_of_unquoted
  · intro hquote
    have hbyte := @mem_encode_of_mem cs 0x22 (by decide) (hmem _ hquote)
    exact (Json.ne_of_isToken (h _ hbyte)).1 rfl
  · intro hslash
    have hbyte := @mem_encode_of_mem cs 0x5c (by decide) (hmem _ hslash)
    exact (Json.ne_of_isToken (h _ hbyte)).2 rfl

theorem strays_of_not_mem {cs : List Char} (h : '[' ∉ cs) : strays cs = [] := by
  have hnone : bracketed? cs = none := by
    rw [Option.eq_none_iff_forall_ne_some]
    intro span hspan
    rcases exists_of_bracketed? hspan with ⟨before, inside, rest, rfl, rfl, _⟩
    exact h (by simp)
  rw [strays, hnone]
  cases document? (fenced? cs) <;> rfl

end Response
end SurfaceFeed
