import SurfaceFeed.Proofs.Candidates
import SurfaceFeed.Proofs.Scanner.Lists
import SurfaceFeed.Proofs.Scanner.Quiet

/-!
# Ends of documents

## The characters of an end

Of a document in which the scanner has found no object, an end may be left over.
It begins anywhere: outside strings or inside one, after a backslash, or in the
middle of a character.
-/

namespace SurfaceFeed

theorem not_mem_tail_of_between {α : Type} {x : α} {a b c : List α}
    (h : x ∉ (a ++ (b ++ c)).tail) : x ∉ b.tail := by
  intro hmem
  apply h
  cases a with
  | nil =>
      cases b with
      | nil => cases hmem
      | cons y b => exact List.mem_append_left c hmem
  | cons y a =>
      exact List.mem_append_right a (List.mem_append_left c (List.mem_of_mem_tail hmem))

namespace Text

/-- The end of an encoded text, with replacements for the bytes of a character that is cut. -/
inductive Ending : Bytes -> List Char -> Prop where
  | whole {ws : List Char} : Ending (encode ws) ws
  | cut {ws : List Char} {y : Bytes} :
      y ≠ [] -> (forall b, b ∈ y -> isContinuation b) ->
      Ending (y ++ encode ws) (List.replicate y.length replacement ++ ws)

theorem Encoded.ending {u w : Bytes} (h : Encoded (u ++ w)) : Ending w (decodeLossy w) := by
  rcases h with ⟨cs, hcs⟩
  rcases encode_eq_append hcs.symm with ⟨us, ws, _, _, rfl⟩ |
    ⟨us, c, ws, x, y, _, hc, hx, hy, _, rfl⟩
  · rw [decodeLossy_encode]
    exact .whole
  · have hbytes := (bytes_of_cut hc hx hy).2
    rw [decodeLossy_continuation_append hbytes, decodeLossy_encode]
    exact .cut hy hbytes

theorem not_mem_tail_of_encode {cs : List Char} (h : 0x5b ∉ (encode cs).tail) :
    '[' ∉ cs.tail := by
  intro hmem
  apply h
  cases cs with
  | nil => cases hmem
  | cons c cs =>
      have hbyte := @mem_encode_of_mem cs 0x5b (by decide) hmem
      rw [encode_cons]
      rcases exists_cons_of_encodeChar c with ⟨b, tail, hc⟩
      rw [hc]
      exact List.mem_append_right tail hbyte

theorem Ending.not_mem_tail {w : Bytes} {cs : List Char} (h : Ending w cs)
    (hopen : 0x5b ∉ w.tail) : '[' ∉ cs.tail := by
  cases h with
  | whole => exact not_mem_tail_of_encode hopen
  | @cut ws y hne _ =>
      cases y with
      | nil => exact absurd rfl hne
      | cons b y =>
          intro hmem
          have hmem : '[' ∈ List.replicate y.length replacement ++ ws := hmem
          rcases List.mem_append.1 hmem with hreplaced | hws
          · exact absurd (List.eq_of_mem_replicate hreplaced) (by decide)
          · exact hopen (List.mem_append_right y (mem_encode_of_mem (by decide) hws))

theorem Ending.passes {w : Bytes} {cs : List Char} (h : Ending w cs) {l : Lexical}
    (hpasses : Lexical.Passes .quoted w l) : Lexical.Passes .quoted (encode cs) l := by
  cases h with
  | whole => exact hpasses
  | @cut ws y _ hy =>
      rcases hpasses.exists_of_append with ⟨l', hcut, hrest⟩
      have hquoted : l' = .quoted := by
        apply hcut.eq_quoted
        intro b hb
        have hlow := (hy b hb).1
        constructor
        · rintro rfl
          exact absurd hlow (by decide)
        · rintro rfl
          exact absurd hlow (by decide)
      rw [hquoted] at hrest
      rw [encode_append]
      refine Lexical.Passes.append (passes_encode ?_ ?_) hrest
      · intro hmem
        exact absurd (List.eq_of_mem_replicate hmem) (by decide)
      · intro hmem
        exact absurd (List.eq_of_mem_replicate hmem) (by decide)

theorem Ending.eq_encode {w : Bytes} {cs : List Char} (h : Ending w cs) {l l' : Lexical}
    (hpasses : Lexical.Passes l w l') (hl : l ≠ .quoted) : w = encode cs := by
  cases h with
  | whole => rfl
  | @cut ws y hne hy =>
      cases y with
      | nil => exact absurd rfl hne
      | cons b y =>
          cases hpasses with
          | cons hadmits _ =>
              exact absurd (Lexical.eq_quoted_of_admits hadmits (hy b List.mem_cons_self).1) hl

theorem Blank.inert {cs : List Char} (h : Blank cs) : Scanner.Inert (encode cs) := by
  apply Scanner.inert_of_forall
  intro b hb
  rw [Bool.eq_false_iff]
  intro hstructural
  simp only [Scanner.isStructural, Bool.or_eq_true, beq_iff_eq] at hstructural
  rcases hstructural with (((rfl | rfl) | rfl) | rfl) | rfl
  all_goals
    have hblank := h _ (mem_of_mem_encode hb (by decide))
    exact absurd hblank (by decide)

end Text

/-! ## Documents in an end -/

namespace Response

open Text

theorem messagesOf_of_isScalar {v : Json} (h : v.isScalar = true) : messagesOf v = [] := by
  apply messagesOf_eq_nil
  intro ms hms
  refine absurd hms (Json.ofJson_ne_ok (Json.not_message_of_isScalar h) ?_)
  rintro vs rfl
  cases h

/-- A list that is read without an object opening in it brings nothing. -/
theorem messagesOf_of_fresh {text : Bytes} {v : Json} {p : Place}
    (hv : Json.ofBytes text = .ok v) (hopen : 0x5b ∉ text.tail)
    (hfresh : (Scanner.scan ⟨.plain, p⟩ text).1.place.Fresh)
    (hobject : forall fields, v ≠ .object fields) : messagesOf v = [] := by
  rcases (Json.ofBytes_eq_ok_iff _ _).1 hv with ⟨a, s, b, rfl, ha, _, hs⟩
  rcases hs.shape with ⟨hscalar, _⟩ | ⟨vs, t, rfl, rfl⟩ | ⟨fields, t, rfl, _⟩
  · exact messagesOf_of_isScalar hscalar
  · cases vs with
    | nil => rfl
    | cons v vs =>
        rcases hs.exists_of_list with ⟨below, c, t, u, _, hlist, hc, ht, _⟩
        rw [hlist] at hopen hfresh
        have hfirst : messagesOf (.array (v :: vs)) = [] ∨ exists fields, v = .object fields := by
          rcases ht.shape with ⟨hscalar, _⟩ | ⟨vs', t', rfl, rfl⟩ | ⟨fields, t', rfl, _⟩
          · refine .inl (messagesOf_eq_nil fun ms hms => ?_)
            exact absurd hms (Json.ofItems_ne_ok (Json.not_message_of_isScalar hscalar))
          · exfalso
            have hinside := not_mem_tail_of_between hopen
            exact hinside (by simp)
          · exact .inr ⟨fields, rfl⟩
        rcases hfirst with hnone | ⟨fields, rfl⟩
        · exact hnone
        · exfalso
          -- the first item is an object, and the scanner signals it
          have hsplit : a ++ ((0x5b :: (c ++ (t ++ u))) ++ b) =
              (a ++ 0x5b :: c) ++ (t ++ (u ++ b)) := by simp
          rw [hsplit, Scanner.scan_append] at hfresh
          dsimp only at hfresh
          have hgap := (Scanner.fresh_of_scan hfresh).1
          have hstart := (Scanner.fresh_of_scan hgap).1
          rcases Scanner.exists_list_of_gap hstart ha hc with ⟨held, hlist⟩
          rcases Scanner.exists_braced_of_object ht with ⟨body, hbody, hneutral⟩
          rw [hlist, hbody, Scanner.scan_append,
            (Scanner.scan_braced hneutral held false).2] at hfresh
          cases (Scanner.fresh_of_scan hfresh).1
  · exact absurd rfl (hobject fields)

/-! ## An end that begins outside strings -/

theorem fresh_of_piece {a t b : List Char} {p : Place} (ha : Blank a)
    (h : (Scanner.scan ⟨.plain, p⟩ (encode (a ++ (t ++ b)))).1.place.Fresh) :
    exists p', (Scanner.scan ⟨.plain, p'⟩ (encode t)).1.place.Fresh := by
  rw [encode_append, Scanner.scan_append_of_eq (ha.inert p), encode_append,
    Scanner.scan_append] at h
  exact ⟨_, (Scanner.fresh_of_scan h).1⟩

theorem not_mem_tail_of_piece {a t b : List Char}
    (h : 0x5b ∉ (encode (a ++ (t ++ b))).tail) : 0x5b ∉ (encode t).tail := by
  rw [encode_append, encode_append] at h
  exact not_mem_tail_of_between h

theorem not_object_of_bracket {cs : List Char} {fields : List (String × Json)} :
    Json.ofBytes (encode ('[' :: cs)) ≠ .ok (.object fields) := by
  intro hv
  have hbytes : encode ('[' :: cs) = 0x5b :: encode cs := by
    rw [encode_cons]
    rfl
  rw [hbytes] at hv
  rcases ((Json.ofBytes_eq_ok_iff _ _).1 hv).exists_front rfl with ⟨s, a, htext, _, hs⟩
  rcases Scanner.exists_braced_of_object hs with ⟨body, rfl, _⟩
  cases (List.cons.inj htext).1

theorem recovered_of_plain {ws : List Char} {p : Place} {l : Lexical}
    (hpasses : Lexical.Passes .plain (encode ws) l) (hopen : 0x5b ∉ (encode ws).tail)
    (hfresh : (Scanner.scan ⟨.plain, p⟩ (encode ws)).1.place.Fresh)
    (hobject : forall a t b, ws = a ++ (t ++ b) -> Blank a -> Blank b ->
      forall fields, Json.ofBytes (encode t) ≠ .ok (.object fields)) :
    recovered (trim ws) = [] := by
  rcases exists_trim ws with ⟨a, b, hws, ha, hb⟩
  rcases exists_trim (trim ws) with ⟨a', b', htrim, ha', hb'⟩
  have hpiece : forall {a t b v}, ws = a ++ (t ++ b) -> Blank a ->
      Json.ofBytes (encode t) = .ok v -> (forall fields, v ≠ .object fields) ->
      messagesOf v = [] := by
    rintro a t b v rfl ha hv hnot
    rcases fresh_of_piece ha hfresh with ⟨p', hp'⟩
    exact messagesOf_of_fresh hv (not_mem_tail_of_piece hopen) hp' hnot
  have hfenced : forall v, document? (fenced? (trim ws)) = some v -> messagesOf v = [] := by
    intro v hv
    rw [hws, encode_append, encode_append] at hpasses
    rcases hpasses.exists_of_append with ⟨l₁, _, hrest⟩
    rcases hrest.exists_of_append with ⟨l₂, hinside, _⟩
    exact messagesOf_fenced? hinside hv
  have hwhole : forall v, Json.ofBytes (encode (trim (trim ws))) = .ok v ->
      messagesOf v = [] := by
    intro v hv
    have hsplit : ws = (a ++ a') ++ (trim (trim ws) ++ (b' ++ b)) := by
      rw [List.append_assoc, ← List.append_assoc _ b', ← List.append_assoc a', ← htrim]
      exact hws
    refine hpiece hsplit (ha.append ha') hv ?_
    rintro fields rfl
    exact hobject _ _ _ hsplit (ha.append ha') (hb'.append hb) fields hv
  rw [recovered_eq_strays hfenced hwhole, strays]
  cases document? (fenced? (trim ws)) with
  | some v => rfl
  | none =>
      cases hdocument : document? (bracketed? (trim ws)) with
      | none => rfl
      | some v =>
          rcases document?_eq_some hdocument with ⟨span, hspan, hv⟩
          have hfront : '[' ∉ (trim ws).tail := by
            rw [hws] at hopen
            exact not_mem_tail_of_encode (not_mem_tail_of_piece hopen)
          rcases exists_of_bracketed?_front hfront hspan with ⟨inside, rest, htext, rfl⟩
          rw [htext, List.append_assoc] at hws
          refine hpiece hws ha hv ?_
          rintro fields rfl
          exact not_object_of_bracket hv

/-! ## An end that begins after a backslash -/

theorem of_admits_escaped {b : UInt8} (h : Lexical.escaped.admits b = true) :
    b.toNat < 0x80 ∧ isBlank (Char.ofNat b.toNat) = false ∧ Char.ofNat b.toNat ≠ '[' ∧
      Json.Reader.isSpace b = false ∧ b ≠ 0x5b ∧ b ≠ 0x7b := by
  simp only [Lexical.admits, Bool.or_eq_true, beq_iff_eq, Json.Reader.shortEscape?] at h
  rcases h with rfl | h
  · decide
  · split at h
    · next hb =>
        rcases hb with (rfl | rfl) | rfl <;> decide
    · repeat' split at h
      all_goals first
        | cases h; done
        | subst_vars; decide

theorem exists_of_escaped {c : Char} {ws : List Char} {l : Lexical}
    (h : Lexical.Passes .escaped (encode (c :: ws)) l) :
    exists b : UInt8, c = Char.ofNat b.toNat ∧ Lexical.escaped.admits b = true := by
  rw [encode_cons] at h
  rcases exists_cons_of_encodeChar c with ⟨b, tail, hc⟩
  rw [hc] at h
  cases h with
  | cons hadmits _ =>
      have hmem : b ∈ String.utf8EncodeChar c := by
        rw [hc]
        exact List.mem_cons_self
      exact ⟨b, eq_ofNat_of_mem_encodeChar hmem (of_admits_escaped hadmits).1, hadmits⟩

theorem recovered_of_escaped {ws : List Char} {l : Lexical}
    (hpasses : Lexical.Passes .escaped (encode ws) l) (hopen : 0x5b ∉ (encode ws).tail) :
    recovered (trim ws) = [] := by
  cases ws with
  | nil => rfl
  | cons c ws =>
      rcases exists_of_escaped hpasses with ⟨b, rfl, hadmits⟩
      rcases of_admits_escaped hadmits with ⟨hascii, hblank, hchar, hspace, hbracket, hbrace⟩
      rcases exists_trim_cons hblank with ⟨inside, q, htrim, hsplit, _⟩
      rcases @exists_trim_cons _ inside hblank with ⟨inside', q', htrim', _, _⟩
      rw [htrim]
      have hfenced : forall v, document? (fenced? (Char.ofNat b.toNat :: inside)) = some v ->
          messagesOf v = [] := by
        intro v hv
        rw [hsplit, encode_append] at hpasses
        rcases hpasses.exists_of_append with ⟨l₁, hinside, _⟩
        exact messagesOf_fenced? hinside hv
      have hwhole : forall v,
          Json.ofBytes (encode (trim (Char.ofNat b.toNat :: inside))) = .ok v ->
          messagesOf v = [] := by
        intro v hv
        have hbytes : encode (Char.ofNat b.toNat :: inside') = b :: encode inside' := by
          rw [encode_cons, encodeChar_of_ascii hascii]
          rfl
        rw [htrim', hbytes] at hv
        rcases ((Json.ofBytes_eq_ok_iff _ _).1 hv).exists_front hspace with
          ⟨s, a, htext, _, hs⟩
        rcases hs.shape with ⟨hscalar, _⟩ | ⟨_, t, _, rfl⟩ | ⟨_, t, _, rfl⟩
        · exact messagesOf_of_isScalar hscalar
        · exact absurd (List.cons.inj htext).1 hbracket
        · exact absurd (List.cons.inj htext).1 hbrace
      rw [recovered_eq_strays hfenced hwhole]
      apply strays_of_not_mem
      intro hmem
      rcases List.mem_cons.1 hmem with heq | hmem
      · exact hchar heq.symm
      · apply not_mem_tail_of_encode hopen
        have hws : ws = inside ++ q := (List.cons.inj hsplit).2
        rw [List.tail_cons, hws]
        exact List.mem_append_left q hmem

end Response

/-! ## An end of an object -/

namespace Scanner

/--
No object stands between space at the end of the text of an object, unless it is all of
that text: its last brace would close nothing.
-/
theorem not_object_of_ending {u w : Bytes} {fields : List (String × Json)}
    (h : Json.Writes (u ++ w) (.object fields)) (hu : 0x5b ∈ u)
    (hpasses : Lexical.Passes .plain u .plain) (hw : Neutral w) : 0x7b ∉ w := by
  intro hbrace
  rcases h with ⟨a, s, b, htext, ha, hb, hs⟩
  rcases exists_braced_of_object hs with ⟨body, rfl, hneutral⟩
  have hnot : forall {x : Bytes}, Json.Space x -> forall y : UInt8,
      Json.Reader.isSpace y = false -> y ∉ x := by
    intro x hx y hy hmem
    rw [hx y hmem] at hy
    cases hy
  have hpart : u <+: a ++ (0x7b :: (body ++ [0x7d]) ++ b) := ⟨w, htext⟩
  rcases prefix_append_cases hpart with ⟨hshort, _⟩ | ⟨u', rfl, hpart'⟩
  · exact hnot ha 0x5b rfl (hshort.subset hu)
  · rw [List.append_assoc] at htext
    replace htext := List.append_cancel_left htext
    rcases prefix_append_cases hpart' with ⟨hshort, hlt⟩ | ⟨u'', rfl, _⟩
    · -- in the list the object would not be signalled
      have hne : u' ≠ [] := by
        rintro rfl
        rw [List.append_nil] at hu
        exact hnot ha 0x5b rfl hu
      rcases scan_braced_part hneutral [] false hne hshort hlt with ⟨l, depth, hscan⟩
      have hplain : l = .plain := by
        rcases hpasses.exists_of_append with ⟨l₁, hspace, hinside⟩
        cases hspace.unique (Lexical.passes_tokens ha.isToken)
        rcases hinside.scan (.list [] false) with ⟨p, hp⟩
        rw [hscan] at hp
        exact congrArg Scanner.lexical hp
      have hquiet : (scan ⟨.plain, .list [] false⟩ (u' ++ w)).2 = [] := by
        rw [scan_append, hscan, hplain, hw]
        rfl
      rw [htext, scan_append, (scan_braced hneutral [] false).2] at hquiet
      cases hquiet
    · rw [List.append_assoc] at htext
      have hend := List.append_cancel_left htext
      apply hnot hb 0x7b rfl
      rw [← hend]
      exact List.mem_append_right u'' hbrace

end Scanner

namespace Response

open Text

/-- An end of an object that begins in a string brings nothing. -/
theorem recovered_of_quoted {w : Bytes} {cs : List Char} {l : Lexical} (hending : Ending w cs)
    (hpasses : Lexical.Passes .quoted w l) (hopen : 0x5b ∉ w.tail) :
    recovered (trim cs) = [] := by
  have hcs := hending.passes hpasses
  have htail := hending.not_mem_tail hopen
  rcases exists_trim cs with ⟨a, b, htext, ha, _⟩
  rw [htext] at hcs htail
  rw [encode_append, encode_append] at hcs
  rcases hcs.exists_of_append with ⟨l₁, hblank, hrest⟩
  cases hblank.unique ha.passes
  rcases hrest.exists_of_append with ⟨l₂, hinside, _⟩
  apply recovered_of_inside_out hinside
  intro span hspan
  exact passes_of_bracketed? hinside (not_mem_tail_of_between htail) hspan

theorem not_object_of_piece {u w : Bytes} {fields : List (String × Json)}
    (h : Json.Writes (u ++ w) (.object fields)) (hpasses : Lexical.Passes .plain u .plain)
    (hbefore : 0x5b ∈ u ∨ w.head? = some 0x5b) {a t b : List Char}
    (hw : w = encode (a ++ (t ++ b))) (ha : Blank a) (hb : Blank b)
    (fields' : List (String × Json)) : Json.ofBytes (encode t) ≠ .ok (.object fields') := by
  intro hv
  rcases (Json.ofBytes_eq_ok_iff _ _).1 hv with ⟨a', s, b', ht, ha', hb', hs⟩
  rcases Scanner.exists_braced_of_object hs with ⟨body, rfl, _⟩
  rw [encode_append, encode_append, ht] at hw
  rcases hbefore with hu | hhead
  · have hpiece : Scanner.Neutral (a' ++ (0x7b :: (body ++ [0x7d]) ++ b')) :=
      (Scanner.inert_space ha').neutral.append
        ((Scanner.neutral_value hs).append (Scanner.inert_space hb').neutral)
    have hneutral : Scanner.Neutral w := by
      rw [hw]
      exact ha.inert.neutral.append (hpiece.append hb.inert.neutral)
    apply Scanner.not_object_of_ending h hu hpasses hneutral
    rw [hw]
    simp
  · -- the bracket would stand among blanks
    have hfront : w = (encode a ++ a') ++ 0x7b :: (body ++ [0x7d] ++ b' ++ encode b) := by
      rw [hw]
      simp
    rw [hfront] at hhead
    have hmem : 0x5b ∈ encode a ++ a' := by
      cases hpre : encode a ++ a' with
      | nil =>
          rw [hpre] at hhead
          cases hhead
      | cons x pre =>
          rw [hpre] at hhead
          cases hhead
          exact List.mem_cons_self
    rcases List.mem_append.1 hmem with hblank | hspace
    · exact absurd (ha _ (mem_of_mem_encode hblank (by decide))) (by decide)
    · cases ha' _ hspace

/--
An end of an object brings nothing, if no object was found before and no bracket opens
after its first byte.
-/
theorem recovered_of_ending {u w : Bytes} {fields : List (String × Json)}
    (h : Json.ofBytes (u ++ w) = .ok (.object fields)) (hopen : 0x5b ∉ w.tail)
    (hbefore : 0x5b ∈ u ∨ w.head? = some 0x5b)
    (hfresh : (Scanner.start.scan (u ++ w)).1.place.Fresh) :
    recovered (trim (decodeLossy w)) = [] := by
  have hwrites := (Json.ofBytes_eq_ok_iff _ _).1 h
  have hending := (Json.encoded_of_ofBytes h).ending
  rcases (Lexical.passes_document hwrites).exists_of_append with ⟨l, hfront, hend⟩
  cases l with
  | quoted => exact recovered_of_quoted hending hend hopen
  | escaped =>
      have hw := hending.eq_encode hend (by decide)
      rw [hw] at hend hopen
      exact recovered_of_escaped hend hopen
  | plain =>
      have hw := hending.eq_encode hend (by decide)
      rcases hfront.scan (.outside []) with ⟨p, hp⟩
      rw [Scanner.scan_append, Scanner.start, hp] at hfresh
      have hpieces := @not_object_of_piece u w fields hwrites hfront hbefore
      rw [hw] at hend hopen hfresh
      apply recovered_of_plain hend hopen hfresh
      intro a t b hws ha hb
      exact hpieces (by rw [← hws]; exact hw) ha hb

end Response
end SurfaceFeed
