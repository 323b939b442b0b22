import SurfaceFeed.Proofs.Batch
import SurfaceFeed.Proofs.Endings
import SurfaceFeed.Proofs.Remainder

/-!
# Responses of one object

## The whole response

A response that is one object has no list of messages, and what the stream holds
is looked at when it ends.  If there is no bracket in the response, that is all
of it.
-/

namespace SurfaceFeed

namespace Text

theorem Blank.not_mem {cs : List Char} (h : Blank cs) {b : UInt8} (hb : b.toNat < 0x80)
    (hchar : isBlank (Char.ofNat b.toNat) = false) : b ∉ encode cs := by
  intro hmem
  have hblank := h _ (mem_of_mem_encode hmem hb)
  rw [hchar] at hblank
  cases hblank

end Text

namespace Json

open Text

theorem exists_of_front {a x rest : Bytes} {b : UInt8} (ha : Space a) (hb : b ∉ x)
    {y : Bytes} (h : x ++ y = a ++ b :: rest) : exists a', Space a' ∧ y = a' ++ b :: rest := by
  rcases List.append_eq_append_iff.1 h with ⟨a', rfl, hy⟩ | ⟨x', rfl, hrest⟩
  · exact ⟨a', fun z hz => ha z (List.mem_append_right x hz), hy⟩
  · cases x' with
    | nil => exact ⟨[], space_nil, hrest.symm⟩
    | cons z x' =>
        cases (List.cons.inj hrest).1
        exact absurd (List.mem_append_right a List.mem_cons_self) hb

theorem Space.reverse {a : Bytes} (h : Space a) : Space a.reverse :=
  fun b hb => h b (List.mem_reverse.1 hb)

theorem exists_of_back {c x rest : Bytes} {b : UInt8} (hc : Space c) (hb : b ∉ x)
    {y : Bytes} (h : y ++ x = rest ++ b :: c) : exists c', Space c' ∧ y = rest ++ b :: c' := by
  have hreverse := congrArg List.reverse h
  rw [List.reverse_append, List.reverse_append, List.reverse_cons, List.append_assoc] at hreverse
  have hb' : b ∉ x.reverse := fun hmem => hb (List.mem_reverse.1 hmem)
  rcases exists_of_front hc.reverse hb' hreverse with ⟨c', hc', hy⟩
  refine ⟨c'.reverse, hc'.reverse, ?_⟩
  rw [← List.reverse_reverse y, hy]
  simp

theorem ofBytes_trim_of_ends {cs : List Char} {v : Json} {left right : UInt8}
    (hleft : left.toNat < 0x80 ∧ isBlank (Char.ofNat left.toNat) = false)
    (hright : right.toNat < 0x80 ∧ isBlank (Char.ofNat right.toNat) = false)
    (hends : forall depth s, Written depth (.value v) s ->
      exists inside, s = left :: (inside ++ [right]))
    (h : ofBytes (encode cs) = .ok v) : ofBytes (encode (trim cs)) = .ok v := by
  rcases (ofBytes_eq_ok_iff _ _).1 h with ⟨a, s, c, htext, ha, hc, hs⟩
  rcases hends _ s hs with ⟨inside, rfl⟩
  rcases exists_trim cs with ⟨p, q, htrim, hp, hq⟩
  rw [htrim, encode_append, encode_append] at htext
  rcases exists_of_front ha (hp.not_mem hleft.1 hleft.2) htext with ⟨a', ha', hfront⟩
  have hback : encode (trim cs) ++ encode q = (a' ++ left :: inside) ++ right :: c := by
    rw [hfront]
    simp
  rcases exists_of_back hc (hq.not_mem hright.1 hright.2) hback with ⟨c', hc', hinside⟩
  apply (ofBytes_eq_ok_iff _ _).2
  refine ⟨a', _, c', ?_, ha', hc', hs⟩
  rw [hinside]
  simp

theorem ofBytes_trim {cs : List Char} {fields : List (String × Json)}
    (h : ofBytes (encode cs) = .ok (.object fields)) :
    ofBytes (encode (trim cs)) = .ok (.object fields) := by
  refine @ofBytes_trim_of_ends cs _ 0x7b 0x7d (by decide) (by decide) ?_ h
  intro depth s hs
  rcases Scanner.exists_braced_of_object hs with ⟨body, hbody, _⟩
  exact ⟨body, hbody⟩

end Json

namespace Response

open Text

/--
What is recovered of an object without brackets: its message, unless a string of it has a
fenced document.
-/
theorem recovered_of_message {cs : List Char} {fields : List (String × Json)} {m : Message}
    (h : Json.ofBytes (encode cs) = .ok (.object fields))
    (hm : Decode.message (.object fields) = .ok m) (hopen : 0x5b ∉ encode cs) :
    recovered (trim cs) = if (document? (fenced? (trim cs))).isNone then [m] else [] := by
  have hinside := Json.ofBytes_trim h
  have hbracketed : document? (bracketed? (trim cs)) = none := by
    cases hspan : bracketed? (trim cs) with
    | none => rfl
    | some span =>
        exfalso
        rcases exists_of_bracketed? hspan with ⟨before, inside, rest, htrim, rfl, _⟩
        rcases exists_trim cs with ⟨p, q, hcs, _, _⟩
        apply hopen
        apply @mem_encode_of_mem cs 0x5b (by decide)
        rw [hcs, htrim]
        simp
  have hmessage : messagesOf (.object fields) = [m] := by
    have hitems : ofItems 0 [.object fields] = .ok [m] := by
      rw [ofItems, hm]
      rfl
    have hjson : ofJson (.object fields) = .ok [m] := hitems
    rw [messagesOf, hjson]
    rfl
  rw [recovered, ofChars, firstDocument?_candidates, hbracketed, Option.or_none]
  cases hfenced : document? (fenced? (trim cs)) with
  | none =>
      rw [Json.ofBytes_trim hinside]
      exact hmessage
  | some v =>
      have hpasses := Lexical.passes_document ((Json.ofBytes_eq_ok_iff _ _).1 hinside)
      exact messagesOf_fenced? hpasses hfenced

end Response

/-! ## A list in the object -/

namespace Place

theorem turn_of_not_closed {p : Place} (hp : p ≠ closed) (b : UInt8) :
    p.turn b = (closed, some .closed) ∨
      ((p.turn b).1 ≠ closed ∧ exists objects : List Bytes,
        (p.turn b).2.toList = objects.map Signal.object) := by
  cases p with
  | closed => exact absurd rfl hp
  | outside held =>
      refine .inr ⟨?_, [], rfl⟩
      dsimp only [turn]
      cases b == 0x5b <;> exact nofun
  | list held anyObject =>
      dsimp only [turn]
      cases b == 0x5d with
      | true =>
          cases anyObject with
          | true => exact .inl rfl
          | false => exact .inr ⟨nofun, [], rfl⟩
      | false =>
          cases b == 0x7b with
          | true => exact .inr ⟨nofun, [], rfl⟩
          | false => exact .inr ⟨nofun, [], rfl⟩
  | object held depth =>
      dsimp only [turn]
      cases b == 0x7b with
      | true => exact .inr ⟨nofun, [], rfl⟩
      | false =>
          cases b == 0x7d with
          | false => exact .inr ⟨nofun, [], rfl⟩
          | true =>
              by_cases hdepth : depth ≤ 1
              · rw [if_neg (by decide), if_pos rfl, if_pos hdepth]
                exact .inr ⟨nofun, [held.reverse], rfl⟩
              · rw [if_neg (by decide), if_pos rfl, if_neg hdepth]
                exact .inr ⟨nofun, [], rfl⟩

end Place

namespace Scanner

theorem exists_objects_of_closed {s : Scanner} {text : Bytes} (hs : s.place ≠ .closed)
    (h : (s.scan text).1.place = .closed) :
    exists objects : List Bytes, (s.scan text).2 = objects.map Signal.object ++ [.closed] := by
  induction text generalizing s with
  | nil => exact absurd h hs
  | cons b text ih =>
      have hheld : s.place.hold b ≠ .closed := by
        cases hp : s.place with
        | closed => exact absurd hp hs
        | outside held => exact nofun
        | list held anyObject => exact nofun
        | object held depth => exact nofun
      have hstep : ((s.step b).1.place = .closed ∧ (s.step b).2 = some .closed) ∨
          ((s.step b).1.place ≠ .closed ∧ exists objects : List Bytes,
            (s.step b).2.toList = objects.map Signal.object) := by
        rcases s with ⟨lexical, place⟩
        cases lexical with
        | plain =>
            rcases Place.turn_of_not_closed hheld b with hturn | hturn
            · exact .inl ⟨congrArg Prod.fst hturn, congrArg Prod.snd hturn⟩
            · exact .inr hturn
        | quoted => exact .inr ⟨hheld, [], rfl⟩
        | escaped => exact .inr ⟨hheld, [], rfl⟩
      rw [scan_cons] at h ⊢
      rcases hstep with ⟨hplace, hsignal⟩ | ⟨hplace, objects, hsignal⟩
      · refine ⟨[], ?_⟩
        rw [hsignal, (scan_closed hplace text).2]
        rfl
      · rcases ih hplace h with ⟨more, hmore⟩
        refine ⟨objects ++ more, ?_⟩
        rw [hsignal, hmore, List.map_append, List.append_assoc]

theorem exists_objects_of_scan {s : Scanner} (hs : s.place.isClosed = false) (text : Bytes) :
    exists objects : List Bytes,
      ((s.scan text).1.place.isClosed = false ∧ (s.scan text).2 = objects.map .object) ∨
        ((s.scan text).1.place.isClosed = true ∧
          (s.scan text).2 = objects.map .object ++ [.closed]) := by
  have hopen : s.place ≠ .closed := by
    intro hclosed
    rw [hclosed] at hs
    cases hs
  cases hclosed : (s.scan text).1.place.isClosed with
  | true =>
      rcases exists_objects_of_closed hopen (Place.eq_closed_of_isClosed hclosed) with
        ⟨objects, hobjects⟩
      exact ⟨objects, .inr ⟨rfl, hobjects⟩⟩
  | false =>
      have hnone : Signal.closed ∉ (s.scan text).2 := by
        intro hmem
        rw [place_of_closed_mem hmem] at hclosed
        cases hclosed
      have hall : forall signals : List Signal, Signal.closed ∉ signals ->
          exists objects : List Bytes, signals = objects.map .object := by
        intro signals hsignals
        induction signals with
        | nil => exact ⟨[], rfl⟩
        | cons signal signals ih =>
            rcases ih (fun hmem => hsignals (List.mem_cons_of_mem signal hmem)) with
              ⟨objects, rfl⟩
            cases signal with
            | object text => exact ⟨text :: objects, rfl⟩
            | closed => exact absurd List.mem_cons_self hsignals
      rcases hall _ hnone with ⟨objects, hobjects⟩
      exact ⟨objects, .inl ⟨rfl, hobjects⟩⟩

end Scanner

/-! ## The stream of an object -/

namespace Assembler

variable {settings : Settings} {chunks : List Bytes} {fields : List (String × Json)}
  {m : Message}

/-- The response is delivered as the message `m` and nothing else. -/
structure Delivers (settings : Settings) (chunks : List Bytes) (m : Message) : Prop where
  messages : ((start settings).feedAll chunks).1.finish.1.messages = [m]
  errorCount : ((start settings).feedAll chunks).1.finish.1.errorCount = 0
  events : ((start settings).feedAll chunks).2 ++ ((start settings).feedAll chunks).1.finish.2 =
    [.message m, .complete 1]

/-- A list with objects ends in the response, which is over then. -/
theorem delivers_iff_of_closed
    (hclosed : (Scanner.start.scan chunks.flatten).1.place = .closed) :
    Delivers settings chunks m ↔ exists object,
      (Scanner.start.scan chunks.flatten).2 = [.object object, .closed] ∧
        readObject settings object = .message m := by
  have hstart : Scanner.start.place ≠ .closed := nofun
  rcases Scanner.exists_objects_of_closed hstart hclosed with ⟨objects, hsignals⟩
  rcases feedAll_of_closed settings hsignals with
    ⟨hevents, hmessages, herrors, hcomplete, hfinished, hplace⟩
  have hfinish := finish_of_closed hplace hcomplete hfinished
  rw [hsignals]
  constructor
  · intro h
    have hall := h.events
    rw [hfinish, List.append_nil, hevents] at hall
    have hread := (@List.append_inj' Event _ _ [.message m] [.complete 1] hall rfl).1
    rcases List.map_eq_singleton_iff.1 hread with ⟨object, rfl, hobject⟩
    exact ⟨object, rfl, hobject⟩
  · rintro ⟨object, hobjects, hread⟩
    have hone := (@List.append_inj' Signal _ _ [.object object] [.closed] hobjects rfl).1
    rcases List.map_eq_singleton_iff.1 hone with ⟨object', rfl, hobject⟩
    cases hobject
    rw [List.map_cons, List.map_nil, hread] at hevents hmessages herrors
    refine ⟨?_, ?_, ?_⟩
    · rw [hfinish]
      exact hmessages
    · rw [hfinish]
      exact herrors
    · rw [hfinish, List.append_nil]
      exact hevents

/-- No object is found in the response while it comes, and what is left over decides. -/
theorem delivers_iff_of_fresh (hlenient : settings.finishMode = .lenient)
    (hfresh : (Scanner.start.scan chunks.flatten).1.place.Fresh) :
    Delivers settings chunks m ↔ ((start settings).feedAll chunks).1.leftover = [m] := by
  rcases feedAll_start settings chunks with ⟨halike, hfed⟩
  rw [(Scanner.fresh_of_scan hfresh).2] at halike hfed
  rcases finish_feedAll_of_lenient hlenient chunks with ⟨hmessages, herrors, hevents⟩
  have hnone : ((start settings).feedAll chunks).1.messages = [] := halike.messages_eq
  have hopen : ((start settings).feedAll chunks).1.isComplete = false := halike.isComplete_eq
  rw [hnone, List.nil_append] at hmessages hevents
  constructor
  · intro h
    rw [← hmessages]
    exact h.messages
  · intro h
    refine ⟨hmessages.trans h, herrors.trans halike.errorCount_eq, ?_⟩
    rw [hfed, hevents, hopen, h]
    rfl

theorem leftover_of_object
    (htext : Json.ofBytes chunks.flatten = .ok (.object fields))
    (hm : Decode.message (.object fields) = .ok m) {held : Bytes}
    (hplace : (Scanner.start.scan chunks.flatten).1.place = .outside held) :
    ((start settings).feedAll chunks).1.leftover = [m] ↔
      0x5b ∉ chunks.flatten ∧ Response.document?
        (Response.fenced? (Text.trim (Text.decodeLossy chunks.flatten))) = none := by
  have hfresh : (Scanner.start.scan chunks.flatten).1.place.Fresh := by
    rw [hplace]
    exact .outside
  have halike := (feedAll_start settings chunks).1
  have hnone : ((start settings).feedAll chunks).1.messages = [] := by
    rw [halike.messages_eq, (Scanner.fresh_of_scan hfresh).2]
    rfl
  have hfed := halike.scanner.place
  rw [hplace] at hfed
  rcases hfed.exists_outside with ⟨held', hheld'⟩
  have hholds := holds_start settings chunks
  rw [hheld'] at hholds
  have hleftover : ((start settings).feedAll chunks).1.leftover =
      undelivered [] (Response.recovered (Text.trim (Text.decodeLossy held'.reverse))) := by
    rw [leftover, hheld', hnone]
    rfl
  rw [hleftover]
  have hwindow : Window chunks.flatten held'.reverse := hholds
  generalize held'.reverse = window at hwindow
  rcases hwindow.split with ⟨u, hsplit, hfront, hbefore⟩
  by_cases hopen : 0x5b ∈ chunks.flatten
  · have hnothing : Response.recovered (Text.trim (Text.decodeLossy window)) = [] := by
      have hbracket := hbefore hopen
      rw [hsplit] at htext hfresh
      exact Response.recovered_of_ending htext hwindow.tail hbracket hfresh
    rw [hnothing]
    constructor
    · intro h
      cases h
    · intro h
      exact absurd hopen h.1
  · have hwhole : chunks.flatten = window := by
      cases u with
      | nil => exact hsplit
      | cons b u => exact absurd (hfront (List.cons_ne_nil b u)) hopen
    rw [hwhole] at htext hopen ⊢
    rcases Json.encoded_of_ofBytes htext with ⟨cs, rfl⟩
    rw [Text.decodeLossy_encode]
    rw [Response.recovered_of_message htext hm hopen]
    cases Response.document? (Response.fenced? (Text.trim cs)) with
    | none => exact ⟨fun _ => ⟨hopen, rfl⟩, fun _ => rfl⟩
    | some v =>
        constructor
        · intro h
          cases h
        · intro h
          cases h.2

/--
A response that is one message is delivered as this message just if it has no bracket and no
fenced document, or if by chance the first list in it that has objects has one that is the
same message.
-/
theorem delivers_object_iff (hlenient : settings.finishMode = .lenient)
    (htext : Json.ofBytes chunks.flatten = .ok (.object fields))
    (hm : Decode.message (.object fields) = .ok m) :
    Delivers settings chunks m ↔
      (0x5b ∉ chunks.flatten ∧ Response.document?
          (Response.fenced? (Text.trim (Text.decodeLossy chunks.flatten))) = none) ∨
        exists object, (Scanner.start.scan chunks.flatten).2 = [.object object, .closed] ∧
          readObject settings object = .message m := by
  rcases Scanner.outer_of_writes ((Json.ofBytes_eq_ok_iff _ _).1 htext) with ⟨p, hp, hscan⟩
  have hplace : (Scanner.start.scan chunks.flatten).1.place = p := by
    rw [hscan]
  cases hp with
  | outside =>
      have hfresh : (Scanner.start.scan chunks.flatten).1.place.Fresh := by
        rw [hplace]
        exact .outside
      rw [delivers_iff_of_fresh hlenient hfresh, leftover_of_object htext hm hplace]
      constructor
      · exact .inl
      · rintro (h | ⟨object, hsignals, _⟩)
        · exact h
        · rw [(Scanner.fresh_of_scan hfresh).2] at hsignals
          cases hsignals
  | closed =>
      rw [delivers_iff_of_closed hplace]
      constructor
      · exact .inr
      · rintro (⟨hopen, _⟩ | h)
        · exfalso
          have hholds := holds_start settings chunks
          have halike := (feedAll_start settings chunks).1.scanner.place
          rw [hplace] at halike
          rw [Place.eq_closed_of_isClosed halike.isClosed_eq] at hholds
          exact hopen hholds
        · exact h

theorem delivers_request :
    Delivers .standard
      [[0x7b, 0x22, 0x74, 0x79, 0x70, 0x65, 0x22, 0x3a, 0x22, 0x62, 0x65, 0x67],
        [0x69, 0x6e, 0x52, 0x65, 0x6e, 0x64, 0x65, 0x72, 0x69, 0x6e, 0x67, 0x22, 0x7d]]
      (.beginRendering none) := by
  have hlenient : Settings.standard.finishMode = .lenient := rfl
  have htext : Json.ofBytes
      (List.flatten [[0x7b, 0x22, 0x74, 0x79, 0x70, 0x65, 0x22, 0x3a, 0x22, 0x62, 0x65, 0x67],
        [0x69, 0x6e, 0x52, 0x65, 0x6e, 0x64, 0x65, 0x72, 0x69, 0x6e, 0x67, 0x22, 0x7d]]) =
      .ok (.object [("type", .text "beginRendering")]) := rfl
  exact (delivers_object_iff hlenient htext rfl).2 (.inl ⟨by decide, rfl⟩)

/-- An update of data with a list. -/
def listUpdate : Bytes :=
  [0x7b, 0x22, 0x74, 0x79, 0x70, 0x65, 0x22, 0x3a, 0x22, 0x64, 0x61, 0x74, 0x61, 0x4d, 0x6f,
    0x64, 0x65, 0x6c, 0x55, 0x70, 0x64, 0x61, 0x74, 0x65, 0x22, 0x2c, 0x22, 0x64, 0x61, 0x74,
    0x61, 0x22, 0x3a, 0x5b, 0x7b, 0x7d, 0x5d, 0x7d]

/-- The list in the data is taken for the list of messages, and the update is lost. -/
theorem not_delivers_listUpdate :
    let item := Json.object [("data", .array [.object []]), ("type", .text "dataModelUpdate")]
    Json.ofBytes listUpdate = .ok item ∧ (exists m, Decode.message item = .ok m) ∧
      ((start .standard).feedAll [listUpdate]).1.finish.1.messages = [] ∧
      ((start .standard).feedAll [listUpdate]).1.finish.1.errorCount = 1 ∧
      forall m, ¬ Delivers .standard [listUpdate] m := by
  intro item
  have hmessages : ((start .standard).feedAll [listUpdate]).1.finish.1.messages = [] := rfl
  refine ⟨rfl, ⟨_, rfl⟩, hmessages, rfl, ?_⟩
  intro m h
  have hall := hmessages.symm.trans h.messages
  cases hall

end Assembler

end SurfaceFeed
