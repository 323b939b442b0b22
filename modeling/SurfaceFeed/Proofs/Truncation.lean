import SurfaceFeed.Proofs.Batch
import SurfaceFeed.Proofs.Remainder

/-!
# Lists that are cut short

## The object that is cut

When a list is cut, finishing looks for messages in what there is of the object
that is open.  Its beginning is no document, and its fences bring nothing; but a
list inside it may have been closed before the cut, and is then taken for a list
of messages.
-/

namespace SurfaceFeed

namespace Text

/-- The beginning of an encoded text, with one replacement for a character that is cut. -/
inductive Beginning : Bytes -> List Char -> Prop where
  | whole {us : List Char} : Beginning (encode us) us
  | cut {us : List Char} {x : Bytes} :
      x ≠ [] -> (forall b, b ∈ x -> 0x80 ≤ b.toNat) ->
      Beginning (encode us ++ x) (us ++ [replacement])

theorem Encoded.beginning {text part : Bytes} (h : Encoded text) (hpart : part <+: text) :
    Beginning part (decodeLossy part) := by
  rcases h with ⟨cs, rfl⟩
  rcases hpart with ⟨rest, hrest⟩
  rcases encode_eq_append hrest.symm with ⟨us, ws, _, rfl, _⟩ |
    ⟨us, c, ws, x, y, _, hc, hx, hy, rfl, _⟩
  · rw [decodeLossy_encode]
    exact .whole
  · rw [decodeLossy_encode_append, decodeLossy_of_cut hc hx hy]
    exact .cut hx (bytes_of_cut hc hx hy).1

theorem encode_replacement : encode [replacement] = [0xef, 0xbf, 0xbd] := by
  decide

/-- A beginning whose bytes are in their places is read as a text with that property. -/
theorem Beginning.passes {part : Bytes} {cs : List Char} (h : Beginning part cs)
    {l l' : Lexical} (hpasses : Lexical.Passes l part l') :
    exists l'', Lexical.Passes l (encode cs) l'' := by
  cases h with
  | whole => exact ⟨l', hpasses⟩
  | @cut us x hne hx =>
      rcases hpasses.exists_of_append with ⟨l₁, hus, hcut⟩
      cases x with
      | nil => exact absurd rfl hne
      | cons b x =>
          cases hcut with
          | cons hadmits _ =>
              cases Lexical.eq_quoted_of_admits hadmits (hx b List.mem_cons_self)
              refine ⟨.quoted, ?_⟩
              rw [encode_append, encode_replacement]
              exact hus.append (Lexical.passes_quoted (forall_mem_of_all rfl))

theorem Beginning.signals {part : Bytes} {cs : List Char} (h : Beginning part cs)
    {s : Scanner} (hsignals : (s.scan part).2 = []) : (s.scan (encode cs)).2 = [] := by
  cases h with
  | whole => exact hsignals
  | @cut us x _ _ =>
      rw [Scanner.scan_append] at hsignals
      simp only [encode_append, Scanner.scan_append, (List.append_eq_nil_iff.1 hsignals).1,
        List.nil_append, encode_replacement]
      exact Scanner.signals_of_not_isStructural (forall_mem_of_all rfl)

theorem Beginning.exists_cons {b : UInt8} {part : Bytes} {cs : List Char}
    (h : Beginning (b :: part) cs) (hb : b.toNat < 0x80) :
    exists rest, cs = Char.ofNat b.toNat :: rest := by
  generalize hbytes : b :: part = bytes at h
  have hfirst : forall (us : List Char) (x : Bytes), b :: part = encode us ++ x ->
      us = [] ∨ exists rest, us = Char.ofNat b.toNat :: rest := by
    intro us x heq
    cases us with
    | nil => exact .inl rfl
    | cons c us =>
        refine .inr ⟨us, ?_⟩
        rw [encode_cons, List.append_assoc] at heq
        rcases exists_cons_of_encodeChar c with ⟨b', tail, hc⟩
        rw [hc] at heq
        have hmem : b ∈ String.utf8EncodeChar c := by
          rw [hc, (List.cons.inj heq).1]
          exact List.mem_cons_self
        rw [eq_ofNat_of_mem_encodeChar hmem hb]
  cases h with
  | whole =>
      rcases hfirst cs [] (by rw [List.append_nil]; exact hbytes) with rfl | hcons
      · cases hbytes
      · exact hcons
  | @cut us x hne hx =>
      rcases hfirst us x hbytes with rfl | ⟨rest, rfl⟩
      · exfalso
        have hmem : b ∈ x := by
          have hx' : b :: part = x := hbytes
          rw [← hx']
          exact List.mem_cons_self
        have hhigh := hx b hmem
        omega
      · exact ⟨rest ++ [replacement], rfl⟩

theorem Beginning.mem {part : Bytes} {cs : List Char} (h : Beginning part cs) {b : UInt8}
    (hb : b.toNat < 0x80) (hmem : Char.ofNat b.toNat ∈ cs) : b ∈ part := by
  cases h with
  | whole => exact mem_encode_of_mem hb hmem
  | @cut us x _ _ =>
      rcases List.mem_append.1 hmem with hus | hlast
      · exact List.mem_append_left x (mem_encode_of_mem hb hus)
      · exfalso
        have hbyte := @mem_encode_of_mem [replacement] b hb hlast
        rw [encode_replacement] at hbyte
        simp only [List.mem_cons, List.not_mem_nil, or_false] at hbyte
        rcases hbyte with rfl | rfl | rfl <;> exact absurd hb (by decide)

end Text

/-! ## What finishing finds in it -/

namespace Response

open Text

/-- A text that begins with a brace and gives no signal in a list is no document. -/
theorem not_document_of_signals {cs : List Char} {s : Scanner}
    (hs : exists held anyObject, s = ⟨.plain, .list held anyObject⟩)
    (hsignals : (s.scan (encode ('\x7b' :: cs))).2 = []) (v : Json) :
    Json.ofBytes (encode ('\x7b' :: cs)) ≠ .ok v := by
  intro hv
  have hbytes : encode ('\x7b' :: cs) = 0x7b :: encode cs := by
    rw [encode_cons]
    rfl
  rw [hbytes] at hv hsignals
  rcases ((Json.ofBytes_eq_ok_iff _ _).1 hv).exists_front rfl with ⟨t, a, htext, _, ht⟩
  rcases ht.shape with ⟨_, b, t', rfl, _, hbrace⟩ | ⟨_, t', _, rfl⟩ | ⟨fields, t', rfl, rfl⟩
  · exact hbrace (List.cons.inj htext).1.symm
  · cases (List.cons.inj htext).1
  · rcases Scanner.exists_braced_of_object ht with ⟨body, hbody, hneutral⟩
    rcases hs with ⟨held, anyObject, rfl⟩
    rw [htext, hbody, Scanner.scan_append,
      (Scanner.scan_braced hneutral held anyObject).2] at hsignals
    cases hsignals

/-- What is recovered of the beginning of an object. -/
theorem recovered_of_object {sep : UInt8} {item : Json} {e : Element} (he : e.Of sep item)
    (hobject : exists fields, item = .object fields) {part : Bytes} (hpart : part <+: e.object)
    (hlt : part.length < e.object.length) (hne : part ≠ []) :
    recovered (trim (decodeLossy part)) = strays (trim (decodeLossy part)) := by
  rcases he.exists_neutral hobject with ⟨body, hbody, hneutral⟩
  have hbeginning := (Json.encoded_of_ofBytes he.reads).beginning hpart
  have hpasses : exists l, Lexical.Passes .plain part l := by
    have hwhole := Lexical.passes_document ((Json.ofBytes_eq_ok_iff _ _).1 he.reads)
    rcases hpart with ⟨rest, hrest⟩
    rw [← hrest] at hwhole
    rcases hwhole.exists_of_append with ⟨l, hfirst, _⟩
    exact ⟨l, hfirst⟩
  have hsignals : (Scanner.scan ⟨.plain, .list [] false⟩ part).2 = [] := by
    rw [hbody] at hpart hlt
    rcases Scanner.scan_braced_part hneutral [] false hne hpart hlt with ⟨l, depth, hscan⟩
    rw [hscan]
  have hread : exists cs, decodeLossy part = '\x7b' :: cs := by
    cases part with
    | nil => exact absurd rfl hne
    | cons b part =>
        rw [hbody] at hpart
        rcases List.prefix_cons_iff.1 hpart with hnil | ⟨t, heq, _⟩
        · cases hnil
        · cases heq
          exact hbeginning.exists_cons (by decide)
  rcases hpasses with ⟨l, hpasses⟩
  rcases hbeginning.passes hpasses with ⟨l', hpasses⟩
  replace hsignals := hbeginning.signals hsignals
  rcases hread with ⟨cs, hread⟩
  rw [hread] at hpasses hsignals ⊢
  -- trimming takes no more than an end, twice
  rcases @exists_trim_cons '\x7b' cs (by decide) with ⟨inside, q, htrim, hsplit, _⟩
  rcases @exists_trim_cons '\x7b' inside (by decide) with ⟨inside', q', htrim', hsplit', _⟩
  rw [hsplit, encode_append] at hpasses hsignals
  rcases hpasses.exists_of_append with ⟨l₁, hpasses, _⟩
  rw [Scanner.scan_append] at hsignals
  replace hsignals := (List.append_eq_nil_iff.1 hsignals).1
  rw [htrim]
  refine recovered_eq_strays (fun v => messagesOf_fenced? hpasses) ?_
  intro v hv
  rw [htrim'] at hv
  rw [hsplit', encode_append, Scanner.scan_append] at hsignals
  have hnone := (List.append_eq_nil_iff.1 hsignals).1
  exact absurd hv (not_document_of_signals ⟨[], false, rfl⟩ hnone v)

theorem strays_of_beginning {part : Bytes} {cs : List Char} (h : Beginning part cs)
    (hopen : 0x5b ∉ part) : strays (trim cs) = [] := by
  apply strays_of_not_mem
  intro hmem
  rcases exists_trim cs with ⟨p, q, hcs, _, _⟩
  refine hopen (h.mem (by decide) ?_)
  rw [hcs]
  exact List.mem_append_right p (List.mem_append_left q hmem)

end Response

/-! ## What is cut of a list -/

theorem Element.exists_of_unfinished {sep : UInt8} {items : List Json}
    {elements : List Element} (h : Laid sep items elements) {rest t : Bytes}
    (ht : t <+: elements.flatMap Element.text ++ rest) (hne : unfinished elements t ≠ []) :
    exists sep' item, exists e : Element, item ∈ items ∧ e.Of sep' item ∧
      unfinished elements t <+: e.object ∧
      (unfinished elements t).length < e.object.length := by
  induction h generalizing t with
  | nil => exact absurd rfl hne
  | @cons sep item items e elements he _ ih =>
      rw [List.flatMap_cons, List.append_assoc] at ht
      rcases prefix_append_cases ht with ⟨hshort, hlt⟩ | ⟨t', rfl, ht'⟩
      · rw [unfinished, if_neg (Nat.not_le.2 hlt)] at hne ⊢
        rcases prefix_append_cases hshort with ⟨_, hgap⟩ | ⟨t', rfl, ht'⟩
        · exact absurd (List.drop_eq_nil_of_le (Nat.le_of_lt hgap)) hne
        · rw [text, List.length_append, List.length_append] at hlt
          rw [List.drop_left]
          exact ⟨sep, item, e, List.mem_cons_self, he, ht', Nat.lt_of_add_lt_add_left hlt⟩
      · have hle : e.text.length ≤ (e.text ++ t').length := by simp
        rw [unfinished, if_pos hle, List.drop_left] at hne ⊢
        rcases ih ht' hne with ⟨sep', item', e', hmem, he', hpart, hlength⟩
        exact ⟨sep', item', e', List.mem_cons_of_mem item hmem, he', hpart, hlength⟩

theorem Element.beginning_of_unfinished {sep : UInt8} {items : List Json}
    {elements : List Element} (h : Laid sep items elements) {rest t : Bytes}
    (ht : t <+: elements.flatMap Element.text ++ rest) :
    Text.Beginning (unfinished elements t) (Text.decodeLossy (unfinished elements t)) := by
  by_cases hne : unfinished elements t = []
  · rw [hne]
    exact @Text.Beginning.whole []
  · rcases exists_of_unfinished h ht hne with ⟨_, _, e, _, he, hpart, _⟩
    exact (Json.encoded_of_ofBytes he.reads).beginning hpart

/-! ## Lists without objects -/

namespace Json

theorem tokens_of_nil {text : Bytes} (h : ofBytes text = .ok (.array [])) :
    forall b, b ∈ text -> isToken b = true ∧ b ≠ 0x7b := by
  rcases (ofBytes_eq_ok_iff _ _).1 h with ⟨a, s, b, rfl, ha, hb, hs⟩
  rcases hs.exists_of_nil with ⟨c, hc, rfl⟩
  have hspace : forall s, Space s -> forall x, x ∈ s -> isToken x = true ∧ x ≠ 0x7b := by
    intro s hs x hx
    refine ⟨hs.isToken x hx, ?_⟩
    rintro rfl
    cases hs _ hx
  intro x hx
  simp only [List.mem_append, List.mem_cons, List.not_mem_nil, or_false] at hx
  rcases hx with hx | (rfl | hx | rfl) | hx
  · exact hspace a ha x hx
  · decide
  · exact hspace c hc x hx
  · decide
  · exact hspace b hb x hx

end Json

namespace Assembler

variable {settings : Settings} {text : Bytes} {items : List Json} {chunks : List Bytes}

theorem finish_of_nil (hlenient : settings.finishMode = .lenient)
    (htext : Json.ofBytes text = .ok (.array [])) (hpart : chunks.flatten <+: text) :
    ((start settings).feedAll chunks).1.finish.1.messages = [] := by
  have htokens : forall b, b ∈ chunks.flatten -> Json.isToken b = true ∧ b ≠ 0x7b :=
    fun b hb => Json.tokens_of_nil htext b (hpart.subset hb)
  have hopen : 0x7b ∉ chunks.flatten := fun hmem => (htokens _ hmem).2 rfl
  have hfresh := @Scanner.fresh_scan .start .outside _ hopen
  have halike := (feedAll_start settings chunks).1
  rw [hfresh.2] at halike
  have hmessages : ((start settings).feedAll chunks).1.messages = [] := halike.messages_eq
  rw [(finish_feedAll_of_lenient hlenient chunks).1, hmessages, List.nil_append]
  exact leftover_of_fresh (halike.scanner.place.fresh hfresh.1) (holds_start settings chunks)
    (settle_start settings chunks) fun b hb => (htokens b hb).1

/-! ## Lists with objects -/

theorem messages_of_part (settings : Settings) {ms : List Message} (layout : Layout text items)
    (hne : items ≠ [])
    (hobjects : forall item, item ∈ items -> exists fields, item = .object fields)
    (hmessages : items.map Decode.message = ms.map .ok) (hpart : chunks.flatten <+: text) :
    ((start settings).feedAll chunks).1.messages =
      ms.take (Element.within layout.elements chunks.flatten.length) := by
  have hlayout : chunks.flatten <+: [] ++ text := hpart
  have hevents := feedAll_of_part settings Scanner.skips_nil layout hne hobjects hlayout
  have hitems := itemEvents_of_messages settings hmessages layout.laid.length_eq
  have hnone : forall (p : Prop) [Decidable p] (count : Nat),
      Event.messages (if p then [.complete count] else []) = [] := by
    intro p _ count
    split <;> rfl
  simp only [messages_feedAll, hevents, hitems, Event.messages_append, hnone, ← List.map_take,
    Event.messages_map_message]
  simp [start]

/-- What is left over of a list with objects is found in what is cut of it. -/
theorem leftover_of_holding {a : Assembler} {fed received : Bytes} {q : Place}
    (h : Scanner.Holding fed received q) (halike : Place.Alike a.scanner.place q)
    (hholds : a.scanner.place.Holds fed) (hsettle : a.scanner.place.settle = a.scanner.place)
    (hobject : received ≠ [] ->
      Response.recovered (Text.trim (Text.decodeLossy received)) =
        Response.strays (Text.trim (Text.decodeLossy received))) :
    a.leftover =
      undelivered a.messages (Response.strays (Text.trim (Text.decodeLossy received))) := by
  have hnothing : Response.strays (Text.trim (Text.decodeLossy [])) = [] := rfl
  cases h with
  | outside hspace =>
      rw [hnothing]
      exact leftover_of_fresh (halike.fresh .outside) hholds hsettle hspace.isToken
  | list =>
      rcases halike.exists_list with ⟨held, hplace⟩
      rw [hnothing]
      exact leftover_of_list hplace hsettle
  | object hne =>
      rw [leftover, halike.eq_object, ← hobject hne]
      simp [Place.isClosed, Place.held]
  | closed =>
      rw [hnothing, leftover, Place.eq_closed_of_isClosed (halike.isClosed_eq)]
      rfl

/--
Finishing leniently after a part of a list of messages delivers the messages whose objects
end inside the part.  More can come only of a list that stands in the object that is cut:
what is delivered is right just if all messages of that list were delivered before.
-/
theorem finish_of_truncated (hlenient : settings.finishMode = .lenient) {ms : List Message}
    (htext : Json.ofBytes text = .ok (.array items))
    (hobjects : forall item, item ∈ items -> exists fields, item = .object fields)
    (hmessages : items.map Decode.message = ms.map .ok) (hpart : chunks.flatten <+: text) :
    let ended := ((start settings).feedAll chunks).1.finish.1
    (items = [] -> ended.messages = []) ∧
      (items ≠ [] -> Nonempty (Layout text items) ∧ forall layout : Layout text items,
        let whole := ms.take (Element.within layout.elements chunks.flatten.length)
        let rest := Element.unfinished layout.elements chunks.flatten
        let found := Response.strays (Text.trim (Text.decodeLossy rest))
        ended.messages = whole ++ undelivered whole found ∧
          (ended.messages = whole ↔ forall m, m ∈ found -> whole.any (· == m) = true) ∧
          (0x5b ∉ rest -> ended.messages = whole)) := by
  intro ended
  constructor
  · rintro rfl
    exact finish_of_nil hlenient htext hpart
  intro hne
  refine ⟨exists_layout htext hne hobjects, ?_⟩
  intro layout whole rest found
  have hlayout : chunks.flatten <+: layout.elements.flatMap Element.text ++
      (layout.before ++ 0x5d :: layout.after) := by
    rw [← layout.text_eq]
    exact hpart
  have hdelivered : ((start settings).feedAll chunks).1.messages = whole :=
    messages_of_part settings layout hne hobjects hmessages hpart
  have hrecovered : rest ≠ [] ->
      Response.recovered (Text.trim (Text.decodeLossy rest)) = found := by
    intro hrest
    rcases Element.exists_of_unfinished layout.laid hlayout hrest with
      ⟨sep, item, e, hmem, he, hcut, hlength⟩
    exact Response.recovered_of_object he (hobjects item hmem) hcut hlength hrest
  have hleftover : ((start settings).feedAll chunks).1.leftover = undelivered whole found := by
    have hsome : layout.elements = [] -> (0x5b : UInt8) = 0x2c := by
      intro hnone
      have hlength := layout.laid.length_eq
      rw [hnone] at hlength
      exact absurd (List.length_eq_zero_iff.1 hlength.symm) hne
    have hholding := (Scanner.scan_part (@Scanner.Awaits.opening []) layout.laid hobjects hsome
      layout.before_space hlayout).2 [] (.outside Json.space_nil)
    have halike := (feedAll_start settings chunks).1.scanner.place
    rw [← hdelivered]
    exact leftover_of_holding hholding halike (holds_start settings chunks)
      (settle_start settings chunks) hrecovered
  have hended : ended.messages = whole ++ undelivered whole found := by
    rw [(finish_feedAll_of_lenient hlenient chunks).1, hdelivered, hleftover]
  refine ⟨hended, ?_, ?_⟩
  · rw [hended, List.append_right_eq_self, undelivered_eq_nil_iff]
  · intro hopen
    have hfound : found = [] :=
      Response.strays_of_beginning (Element.beginning_of_unfinished layout.laid hlayout) hopen
    rw [hended, hfound]
    exact List.append_nil whole

def messageList : Bytes :=
  [0x5b, 0x7b, 0x22, 0x74, 0x79, 0x70, 0x65, 0x22, 0x3a, 0x22, 0x62, 0x65, 0x67, 0x69, 0x6e,
    0x52, 0x65, 0x6e, 0x64, 0x65, 0x72, 0x69, 0x6e, 0x67, 0x22, 0x7d, 0x2c, 0x5b, 0x22, 0x64,
    0x65, 0x6c, 0x65, 0x74, 0x65, 0x53, 0x75, 0x72, 0x66, 0x61, 0x63, 0x65, 0x22, 0x2c, 0x22,
    0x61, 0x22, 0x5d, 0x5d]

/-- An update of data that is cut after its data, which is a list of messages. -/
def openUpdate : Bytes :=
  [0x7b, 0x22, 0x64, 0x61, 0x74, 0x61, 0x22, 0x3a] ++ messageList

def updateKind : Bytes :=
  [0x2c, 0x22, 0x74, 0x79, 0x70, 0x65, 0x22, 0x3a, 0x22, 0x64, 0x61, 0x74, 0x61, 0x4d, 0x6f,
    0x64, 0x65, 0x6c, 0x55, 0x70, 0x64, 0x61, 0x74, 0x65, 0x22, 0x7d]

def requestAndUpdate : List Json :=
  [.object [("type", .text "beginRendering")],
    .object [
      ("data", .array [.object [("type", .text "beginRendering")],
        .array [.text "deleteSurface", .text "a"]]),
      ("type", .text "dataModelUpdate")]]

def requestLayout :
    Layout (openRequest ++ 0x2c :: openUpdate ++ (updateKind ++ [0x5d])) requestAndUpdate where
  elements := [⟨[0x5b], openRequest.tail⟩, ⟨[0x2c], openUpdate ++ updateKind⟩]
  before := []
  after := []
  laid := .cons ⟨⟨[], [], Json.space_nil, Json.space_nil, rfl⟩,
    ⟨openRequest.tail.tail.dropLast, rfl⟩, rfl⟩
    (.cons ⟨⟨[], [], Json.space_nil, Json.space_nil, rfl⟩,
      ⟨openUpdate.tail ++ updateKind.dropLast, rfl⟩, rfl⟩ .nil)
  before_space := Json.space_nil
  after_space := Json.space_nil
  text_eq := rfl

theorem strays_openUpdate :
    Response.strays (Text.trim (Text.decodeLossy openUpdate)) =
      [.beginRendering none, .deleteSurface "a"] := by
  have hchars : Text.trim (Text.decodeLossy openUpdate) =
      "\x7b\"data\":".toList ++ Text.decodeLossy messageList := by rfl
  have hfenced : Response.fenced? ("\x7b\"data\":".toList ++ Text.decodeLossy messageList) = none := by
    rfl
  have hspan : Response.bracketed? ("\x7b\"data\":".toList ++ Text.decodeLossy messageList) =
      some (Text.decodeLossy messageList) := by rfl
  have hbytes : Text.encode (Text.decodeLossy messageList) = messageList := by rfl
  have hread : Json.ofBytes messageList =
      .ok (.array [.object [("type", .text "beginRendering")],
        .array [.text "deleteSurface", .text "a"]]) := by rfl
  rw [hchars, Response.strays, hfenced, hspan, Response.document?, Response.document?,
    Option.bind_some, hbytes, hread]
  rfl

/-- The request in the data was delivered before and is not delivered again; the deletion is. -/
theorem finish_of_openUpdate :
    let received := openRequest ++ 0x2c :: openUpdate
    let ended := ((start .standard).feedAll [received]).1.finish.1
    let rest := Element.unfinished requestLayout.elements received
    Element.within requestLayout.elements received.length = 1 ∧ rest = openUpdate ∧
      Response.strays (Text.trim (Text.decodeLossy rest)) =
        [.beginRendering none, .deleteSurface "a"] ∧
      ended.messages = [.beginRendering none, .deleteSurface "a"] := by
  intro received ended rest
  have hlenient : Settings.standard.finishMode = .lenient := rfl
  have htext : Json.ofBytes (openRequest ++ 0x2c :: openUpdate ++ (updateKind ++ [0x5d])) =
      .ok (.array requestAndUpdate) := rfl
  have hobjects : forall item, item ∈ requestAndUpdate -> exists fields, item = .object fields := by
    simp [requestAndUpdate]
  have hmessages : requestAndUpdate.map Decode.message =
      [Message.beginRendering none, .dataModelUpdate "/" _].map .ok := rfl
  have hpart : [received].flatten <+: received ++ (updateKind ++ [0x5d]) :=
    ⟨updateKind ++ [0x5d], by rw [List.flatten_singleton]⟩
  have hwithin : Element.within requestLayout.elements received.length = 1 := rfl
  have hrest : rest = openUpdate := rfl
  have hnonempty : requestAndUpdate ≠ [] := by simp [requestAndUpdate]
  have hended := ((finish_of_truncated hlenient htext hobjects hmessages hpart).2 hnonempty).2
    requestLayout
  have hdelivered := hended.1
  rw [List.flatten_singleton, hwithin] at hdelivered
  change ended.messages = _ ++ undelivered _ (Response.strays (Text.trim (Text.decodeLossy rest)))
    at hdelivered
  rw [hrest, strays_openUpdate] at hdelivered
  exact ⟨hwithin, hrest, by rw [hrest, strays_openUpdate], hdelivered⟩

/-- An update of data in a list that is cut after the list in the data. -/
def cutUpdate : Bytes :=
  [0x5b, 0x7b, 0x22, 0x74, 0x79, 0x70, 0x65, 0x22, 0x3a, 0x22, 0x64, 0x61, 0x74, 0x61, 0x4d,
    0x6f, 0x64, 0x65, 0x6c, 0x55, 0x70, 0x64, 0x61, 0x74, 0x65, 0x22, 0x2c, 0x22, 0x64,
    0x61, 0x74, 0x61, 0x22, 0x3a, 0x5b, 0x7b, 0x22, 0x74, 0x79, 0x70, 0x65, 0x22, 0x3a,
    0x22, 0x62, 0x65, 0x67, 0x69, 0x6e, 0x52, 0x65, 0x6e, 0x64, 0x65, 0x72, 0x69, 0x6e,
    0x67, 0x22, 0x7d, 0x5d]

/--
Data can look like messages: what the list in the data has is delivered, though no object
of the response has ended.
-/
theorem finish_delivers_nested :
    let item := Json.object [("data", .array [.object [("type", .text "beginRendering")]]),
      ("type", .text "dataModelUpdate")]
    let text := cutUpdate ++ [0x7d, 0x5d]
    Json.ofBytes text = .ok (.array [item]) ∧ (exists m, Decode.message item = .ok m) ∧
      (forall layout : Layout text [item],
        Element.within layout.elements cutUpdate.length = 0) ∧
      ((start .standard).feedAll [cutUpdate]).1.finish.1.messages = [.beginRendering none] := by
  intro item text
  refine ⟨rfl, ⟨_, rfl⟩, ?_, rfl⟩
  intro layout
  rcases List.length_eq_one_iff.1 layout.laid.length_eq with ⟨e, he⟩
  have htext := layout.text_eq
  rw [he, List.flatMap_cons, List.flatMap_nil, List.append_nil] at htext
  rw [he, Element.within, if_neg]
  intro hle
  -- the last brace would stand after the element
  have hbrace : 0x7d ∈ layout.before ++ 0x5d :: layout.after := by
    have hpart : cutUpdate <+: e.text ++ (layout.before ++ 0x5d :: layout.after) := by
      rw [← htext]
      exact List.prefix_append cutUpdate [0x7d, 0x5d]
    rcases prefix_append_cases hpart with ⟨_, hlt⟩ | ⟨t, ht, _⟩
    · exact absurd hle (Nat.not_le.2 hlt)
    · have hrest : e.text ++ (t ++ [0x7d, 0x5d]) =
          e.text ++ (layout.before ++ 0x5d :: layout.after) := by
        rw [← List.append_assoc, ← ht]
        exact htext
      rw [← List.append_cancel_left hrest]
      simp
  rcases List.mem_append.1 hbrace with hmem | hmem
  · cases layout.before_space _ hmem
  · rcases List.mem_cons.1 hmem with hne | hmem
    · cases hne
    · cases layout.after_space _ hmem

end Assembler

end SurfaceFeed
