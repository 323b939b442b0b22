import SurfaceFeed.Proofs.Scanner.Lists

/-!
# Streams and complete responses

## A list in a stream

A text that a stream brings before a list is passed over if it has no quotes and
closes its own brackets.  Of the list the stream tells object by object what the
reading of the whole list tells at once, each as soon as its last brace is there.
-/

namespace SurfaceFeed

/-! ## What may stand before a list -/

/-- A text without quotes in which every bracket is closed before a brace opens. -/
structure Preamble (text : Bytes) : Prop where
  unquoted : 0x22 ∉ text
  closed : forall a b, text = a ++ 0x5b :: b ->
    exists c d, b = c ++ 0x5d :: d ∧ 0x5d ∉ c ∧ 0x7b ∉ c

theorem Preamble.of_append {a b : Bytes} (h : Preamble (a ++ b)) : Preamble b := by
  constructor
  · intro hquote
    exact h.unquoted (List.mem_append_right a hquote)
  · intro c d hb
    exact h.closed (a ++ c) d (by rw [hb, List.append_assoc])

namespace Scanner

theorem scan_bracketed {c : Bytes} (hquote : 0x22 ∉ c) (hclose : 0x5d ∉ c) (hopen : 0x7b ∉ c)
    (held : Bytes) : exists held',
      scan ⟨.plain, .list held false⟩ (c ++ [0x5d]) = (⟨.plain, .outside held'⟩, []) := by
  induction c generalizing held with
  | nil => exact ⟨0x5d :: held, rfl⟩
  | cons b c ih =>
      simp only [List.mem_cons, not_or] at hquote hclose hopen
      rcases Place.exists_holdAll_list held [b] false with ⟨held', hheld'⟩
      have hstep : step ⟨.plain, .list held false⟩ b = (⟨.plain, .list held' false⟩, none) := by
        have hhold : (Place.list held false).hold b = .list held' false := hheld'
        simp [step, hhold, Place.turn, Lexical.next, Ne.symm hquote.1, Ne.symm hclose.1,
          Ne.symm hopen.1]
      rcases ih hquote.2 hclose.2 hopen.2 held' with ⟨held'', hscan⟩
      refine ⟨held'', ?_⟩
      rw [List.cons_append, scan_cons, hstep, hscan]
      rfl

theorem scan_preamble {text : Bytes} (h : Preamble text) (held : Bytes) : exists held',
    scan ⟨.plain, .outside held⟩ text = (⟨.plain, .outside held'⟩, []) := by
  induction hlength : text.length using Nat.strongRecOn generalizing text held with
  | ind n ih =>
      cases text with
      | nil => exact ⟨held, rfl⟩
      | cons b rest =>
          have hrest : Preamble rest := @Preamble.of_append [b] rest h
          by_cases hb : b = 0x5b
          · subst hb
            -- the scan goes on after the bracket that closes this one
            rcases h.closed [] rest rfl with ⟨c, d, rfl, hclose, hopen⟩
            have hassoc : c ++ 0x5d :: d = (c ++ [0x5d]) ++ d := by simp
            have hquote : 0x22 ∉ c := by
              intro hmem
              exact hrest.unquoted (List.mem_append_left _ hmem)
            have hd : Preamble d := by
              rw [hassoc] at hrest
              exact hrest.of_append
            have hstart : step ⟨.plain, .outside held⟩ 0x5b =
                (⟨.plain, .list [0x5b] false⟩, none) := rfl
            rcases scan_bracketed hquote hclose hopen [0x5b] with ⟨held', hscan⟩
            have hlt : d.length < n := by
              simp only [List.length_cons, List.length_append] at hlength
              omega
            rcases ih d.length hlt hd held' rfl with ⟨held'', hmore⟩
            refine ⟨held'', ?_⟩
            rw [scan_cons, hstart, hassoc, scan_append_of_eq hscan, hmore]
            rfl
          · have hquote : b ≠ 0x22 := by
              rintro rfl
              exact h.unquoted List.mem_cons_self
            have hstep : step ⟨.plain, .outside held⟩ b =
                (⟨.plain, .outside (b :: held)⟩, none) := by
              simp [step, Place.hold, Place.turn, Lexical.next, hb, hquote]
            rw [List.length_cons] at hlength
            rcases ih rest.length (by omega) hrest (b :: held) rfl with ⟨held', hscan⟩
            refine ⟨held', ?_⟩
            rw [scan_cons, hstep, hscan]
            rfl

/-- A text that the scanner passes over, and after which it is where it started. -/
def Skips (text : Bytes) : Prop :=
  exists held, start.scan text = (⟨.plain, .outside held⟩, [])

theorem skips_nil : Skips [] :=
  ⟨[], rfl⟩

theorem Skips.of_preamble {text : Bytes} (h : Preamble text) : Skips text :=
  scan_preamble h []

/-- The signals of a prefix of a list of objects that follows a text that is passed over. -/
theorem scan_layout {text front t : Bytes} {items : List Json} (hfront : Skips front)
    (layout : Layout text items) (hne : items ≠ [])
    (hobjects : forall item, item ∈ items -> exists fields, item = .object fields)
    (ht : t <+: front ++ text) :
    (start.scan t).2 =
      objectSignals (layout.elements.take
        (Element.within layout.elements (t.length - front.length))) ++
        (if front.length + layout.closing < t.length then [.closed] else []) := by
  have hsome : layout.elements = [] -> (0x5b : UInt8) = 0x2c := by
    intro hnone
    have hlength := layout.laid.length_eq
    rw [hnone] at hlength
    exact absurd (List.length_eq_zero_iff.1 hlength.symm) hne
  rcases hfront with ⟨held, hscan⟩
  have hlist : forall t', t' <+: text -> (scan ⟨.plain, .outside held⟩ t').2 =
      objectSignals (layout.elements.take (Element.within layout.elements t'.length)) ++
        (if layout.closing < t'.length then [.closed] else []) := by
    intro t' ht'
    rw [layout.text_eq] at ht'
    exact (scan_part .opening layout.laid hobjects hsome layout.before_space ht').1
  rcases prefix_append_cases ht with ⟨hshort, hlt⟩ | ⟨t', rfl, ht'⟩
  · have hquiet : (start.scan t).2 = [] :=
      signals_of_part hshort (congrArg Prod.snd hscan)
    have hzero : t.length - front.length = 0 := by omega
    have hopen : ¬ front.length + layout.closing < t.length := by omega
    rw [hquiet, hzero, if_neg hopen]
    simpa [scan] using hlist [] List.nil_prefix
  · have hsome := hlist t' ht'
    have hlength : (front ++ t').length - front.length = t'.length := by simp
    have hclosing : front.length + layout.closing < (front ++ t').length ↔
        layout.closing < t'.length := by
      simp only [List.length_append]
      omega
    rw [hlength, scan_append_of_eq hscan, hsome]
    simp only [hclosing]

end Scanner

/-! ## The events of a list -/

namespace Assembler

def itemEvent (settings : Settings) (item : Json) (object : Bytes) : Event :=
  match Decode.message item with
  | .ok m => .message m
  | .error e => .error (.notMessage (previewOf settings (Text.decodeLossy object)) e)

theorem readObject_of_reads (settings : Settings) {item : Json} {object : Bytes}
    (h : Json.ofBytes object = .ok item) :
    readObject settings object = itemEvent settings item object := by
  rw [readObject, h]
  rfl

def itemEvents (settings : Settings) (items : List Json) (elements : List Element) :
    List Event :=
  List.zipWith (fun item e => itemEvent settings item e.object) items elements

theorem itemEvents_of_messages (settings : Settings) {items : List Json}
    {ms : List Message}
    (hmessages : items.map Decode.message = ms.map .ok) {elements : List Element}
    (hlength : elements.length = items.length) :
    itemEvents settings items elements = ms.map .message := by
  induction items generalizing ms elements with
  | nil =>
      cases ms with
      | nil => rfl
      | cons m ms => cases hmessages
  | cons item items ih =>
      cases ms with
      | nil => cases hmessages
      | cons m ms =>
          cases elements with
          | nil => cases hlength
          | cons e elements =>
              simp only [List.map_cons, List.cons.injEq] at hmessages
              have hrest := ih hmessages.2 (Nat.succ.inj hlength)
              have hevents : itemEvents settings (item :: items) (e :: elements) =
                  itemEvent settings item e.object :: itemEvents settings items elements := rfl
              rw [hevents, hrest, itemEvent, hmessages.1]
              rfl

theorem react_objects (a : Assembler) (objects : List Bytes) :
    (a.react (objects.map .object)).2 = objects.map (readObject a.settings) := by
  induction objects generalizing a with
  | nil => rfl
  | cons object objects ih =>
      have hsettings : (a.record (readObject a.settings object)).settings = a.settings := by
        cases readObject a.settings object <;> rfl
      simp only [List.map_cons, react, eventOf]
      rw [ih, hsettings]

theorem react_objectSignals (a : Assembler) (elements : List Element) :
    (a.react (Scanner.objectSignals elements)).2 =
      elements.map fun e => readObject a.settings e.object := by
  have hobjects := react_objects a (elements.map Element.object)
  rw [List.map_map, List.map_map] at hobjects
  exact hobjects

theorem react_list (settings : Settings) (objects : List Bytes) :
    let events := objects.map (readObject settings)
    (start settings).react (objects.map .object ++ [.closed]) =
      ({ ((start settings).react (objects.map .object)).1 with isComplete := true },
        events ++ [.complete (Event.messages events).length]) := by
  intro events
  have hevents : ((start settings).react (objects.map .object)).2 = events :=
    react_objects (start settings) objects
  have hmessages := messages_react (start settings) (objects.map .object)
  rw [hevents] at hmessages
  rw [react_append, hevents]
  simp only [react, eventOf, record, hmessages]
  rfl

end Assembler

section Laid

variable {sep : UInt8} {items : List Json} {elements : List Element}

theorem Laid.itemEvents_eq (h : Laid sep items elements) (settings : Settings) :
    Assembler.itemEvents settings items elements =
      elements.map fun e => Assembler.readObject settings e.object := by
  induction h with
  | nil => rfl
  | cons he _ ih =>
      rw [List.map_cons, ← ih, Assembler.readObject_of_reads settings he.reads]
      rfl

theorem Laid.ofItems_eq_ok_iff (h : Laid sep items elements) (settings : Settings)
    (index : Nat) (ms : List Message) :
    Response.ofItems index items = .ok ms ↔
      (Assembler.itemEvents settings items elements).countP Event.isError = 0 ∧
        Event.messages (Assembler.itemEvents settings items elements) = ms := by
  induction h generalizing index ms with
  | nil => simp [Response.ofItems, Assembler.itemEvents, Event.messages]
  | @cons sep item items e elements _ _ ih =>
      have hevents : Assembler.itemEvents settings (item :: items) (e :: elements) =
          Assembler.itemEvent settings item e.object ::
            Assembler.itemEvents settings items elements := rfl
      rw [hevents, Event.messages_cons, List.countP_cons, Response.ofItems,
        Assembler.itemEvent]
      cases Decode.message item with
      | error fault => simp [Event.isError]
      | ok m =>
          simp only [Event.isError, Event.message?]
          constructor
          · intro hok
            rcases exists_ok_of_bind hok with ⟨ms', hms', hout⟩
            cases hout
            rcases (ih (index + 1) ms').1 hms' with ⟨hcount, hmessages⟩
            exact ⟨by simpa using hcount, by simp [hmessages]⟩
          · rintro ⟨hcount, rfl⟩
            have hrest := (ih (index + 1) _).2 ⟨by simpa using hcount, rfl⟩
            rw [hrest]
            rfl

/-- The first item that is no message is told by the first event that is an error. -/
theorem Laid.ofItems_eq_error_iff (h : Laid sep items elements) (settings : Settings)
    (index k count : Nat) (fault : DecodeError) :
    Response.ofItems index items = .error (.notMessage k fault) ↔
      exists before preview after,
        Assembler.itemEvents settings items elements ++ [.complete count] =
            List.map Event.message before ++ .error (.notMessage preview fault) :: after ∧
          index + before.length = k := by
  induction h generalizing index with
  | nil =>
      constructor
      · intro herror
        cases herror
      · rintro ⟨before, preview, after, hevents, _⟩
        cases before with
        | nil => cases hevents
        | cons m before => cases hevents
  | @cons sep item items e elements _ _ ih =>
      have hevents : Assembler.itemEvents settings (item :: items) (e :: elements) =
          Assembler.itemEvent settings item e.object ::
            Assembler.itemEvents settings items elements := rfl
      rw [hevents, Response.ofItems, Assembler.itemEvent, List.cons_append]
      cases Decode.message item with
      | error fault' =>
          constructor
          · intro herror
            cases herror
            exact ⟨[], _, _, rfl, rfl⟩
          · rintro ⟨before, preview, after, heq, hlength⟩
            cases before with
            | nil =>
                cases heq
                rw [← hlength]
                rfl
            | cons m before => cases heq
      | ok m =>
          constructor
          · intro herror
            have hrest : Response.ofItems (index + 1) items = .error (.notMessage k fault) := by
              cases hitems : Response.ofItems (index + 1) items with
              | ok ms =>
                  rw [hitems] at herror
                  cases herror
              | error e' =>
                  rw [hitems] at herror
                  cases herror
                  rfl
            rcases (ih (index + 1)).1 hrest with ⟨before, preview, after, heq, hlength⟩
            refine ⟨m :: before, preview, after, by rw [heq]; rfl, ?_⟩
            rw [List.length_cons]
            omega
          · rintro ⟨before, preview, after, heq, hlength⟩
            cases before with
            | nil => cases heq
            | cons m' before =>
                simp only [List.map_cons, List.cons_append, List.cons.injEq] at heq
                have hrest := (ih (index + 1)).2 ⟨before, preview, after, heq.2, by
                  rw [List.length_cons] at hlength
                  omega⟩
                rw [hrest]
                rfl

end Laid

theorem Element.within_eq_length {elements : List Element} {n : Nat}
    (h : (elements.flatMap Element.text).length ≤ n) : within elements n = elements.length := by
  induction elements generalizing n with
  | nil => rfl
  | cons e elements ih =>
      rw [List.flatMap_cons, List.length_append] at h
      rw [within, if_pos (Nat.le_of_add_right_le h), ih (Nat.le_sub_of_add_le' h)]
      rfl

/-! ## Streams and lists -/

namespace Assembler

theorem feedAll_of_closed (settings : Settings) {objects : List Bytes} {chunks : List Bytes}
    (hsignals : (Scanner.start.scan chunks.flatten).2 = objects.map .object ++ [.closed]) :
    let events := objects.map (readObject settings)
    let fed := (start settings).feedAll chunks
    fed.2 = events ++ [.complete (Event.messages events).length] ∧
      fed.1.messages = Event.messages events ∧
      fed.1.errorCount = events.countP Event.isError ∧ fed.1.isComplete = true ∧
      fed.1.isFinished = false ∧ fed.1.scanner.place = .closed := by
  intro events fed
  have hplace : (Scanner.start.scan chunks.flatten).1.place = .closed :=
    Scanner.place_of_closed_mem (by rw [hsignals]; simp)
  rcases feedAll_start settings chunks with ⟨halike, hfed⟩
  rw [hsignals, react_list] at halike hfed
  have herrors : ((start settings).react (objects.map .object)).1.errorCount =
      events.countP Event.isError := by
    rw [errorCount_react, react_objects]
    exact Nat.zero_add _
  have hfinished := react_isFinished (start settings) (objects.map .object)
  refine ⟨hfed, ?_, halike.errorCount_eq.trans herrors, halike.isComplete_eq,
    halike.isFinished_eq.trans hfinished, ?_⟩
  · have hmessages : fed.1.messages = Event.messages fed.2 :=
      messages_feedAll (start settings) chunks
    rw [hmessages, hfed, Event.messages_append]
    exact List.append_nil _
  · refine Place.eq_closed_of_isClosed ?_
    rw [halike.scanner.place.isClosed_eq]
    exact congrArg Place.isClosed hplace

section Lists

variable {front text : Bytes} {items : List Json}

theorem feedAll_of_part (settings : Settings) (hfront : Scanner.Skips front)
    (layout : Layout text items) (hne : items ≠ [])
    (hobjects : forall item, item ∈ items -> exists fields, item = .object fields)
    {chunks : List Bytes} (hpart : chunks.flatten <+: front ++ text) :
    let events := itemEvents settings items layout.elements
    ((start settings).feedAll chunks).2 =
      events.take (Element.within layout.elements (chunks.flatten.length - front.length)) ++
        (if front.length + layout.closing < chunks.flatten.length
          then [.complete (Event.messages events).length] else []) := by
  intro events
  have hsignals := Scanner.scan_layout hfront layout hne hobjects hpart
  have hevents : events = layout.elements.map fun e => readObject settings e.object :=
    layout.laid.itemEvents_eq settings
  rw [(feedAll_start settings chunks).2, hsignals, hevents, ← List.map_take]
  split
  · next hclosed =>
      -- the closing bracket stands after all elements
      have hall : Element.within layout.elements (chunks.flatten.length - front.length) =
          layout.elements.length := by
        refine Element.within_eq_length ?_
        rw [Layout.closing] at hclosed
        omega
      rw [hall, List.take_length]
      have hlist := congrArg Prod.snd (react_list settings (layout.elements.map Element.object))
      simp only [List.map_map] at hlist
      exact hlist
  · rw [List.append_nil, List.append_nil]
    exact react_objectSignals (start settings) _

/-- What the whole list and anything after it leave of a fresh assembler. -/
theorem feedAll_of_list (settings : Settings) (hfront : Scanner.Skips front)
    (layout : Layout text items) (hne : items ≠ [])
    (hobjects : forall item, item ∈ items -> exists fields, item = .object fields)
    {rest : Bytes} {chunks : List Bytes} (hchunks : chunks.flatten = front ++ text ++ rest) :
    let events := itemEvents settings items layout.elements
    let fed := (start settings).feedAll chunks
    fed.2 = events ++ [.complete (Event.messages events).length] ∧
      fed.1.messages = Event.messages events ∧
      fed.1.errorCount = events.countP Event.isError ∧ fed.1.isComplete = true ∧
      fed.1.isFinished = false ∧ fed.1.scanner.place = .closed := by
  intro events fed
  have hall : Element.within layout.elements ((front ++ text).length - front.length) =
      layout.elements.length := by
    refine Element.within_eq_length ?_
    have hlength := congrArg List.length layout.text_eq
    simp only [List.length_append] at hlength ⊢
    omega
  have hclosing : front.length + layout.closing < (front ++ text).length := by
    have hlength := congrArg List.length layout.text_eq
    simp only [List.length_append, List.length_cons] at hlength ⊢
    rw [Layout.closing]
    omega
  have hlist := Scanner.scan_layout hfront layout hne hobjects (List.prefix_refl (front ++ text))
  rw [hall, List.take_length, if_pos hclosing] at hlist
  have hclosed : (Scanner.start.scan (front ++ text)).1.place = .closed :=
    Scanner.place_of_closed_mem (by rw [hlist]; simp)
  have hsignals : (Scanner.start.scan chunks.flatten).2 =
      (layout.elements.map Element.object).map .object ++ [.closed] := by
    rw [hchunks, Scanner.scan_append, hlist, (Scanner.scan_closed hclosed rest).2,
      List.append_nil, List.map_map]
    rfl
  have hevents : events = (layout.elements.map Element.object).map (readObject settings) := by
    rw [List.map_map]
    exact layout.laid.itemEvents_eq settings
  rw [hevents]
  exact feedAll_of_closed settings hsignals

end Lists

theorem finish_of_closed {a : Assembler} (hplace : a.scanner.place = .closed)
    (hcomplete : a.isComplete = true) (hfinished : a.isFinished = false) :
    a.finish = ({ a with isFinished := true }, []) := by
  simp [finish, hplace, hcomplete, hfinished, Place.isClosed, complete]

/--
The stream of a list of objects fires one event for each object and completes with the list.
What it delivers is what the reading of the whole list has, and its first error is that of
the whole list.  Each prefix has fired the events of the objects that end inside it.
-/
theorem feedAll_agrees_with_ofJson (settings : Settings) {front text : Bytes}
    {items : List Json} (hfront : Preamble front)
    (htext : Json.ofBytes text = .ok (.array items)) (hne : items ≠ [])
    (hobjects : forall item, item ∈ items -> exists fields, item = .object fields) :
    Nonempty (Layout text items) ∧ forall layout : Layout text items,
      let events := itemEvents settings items layout.elements
      events.length = items.length ∧
      (forall rest chunks, chunks.flatten = front ++ text ++ rest ->
        let fed := (start settings).feedAll chunks
        fed.2 = events ++ [.complete (Event.messages events).length] ∧
          fed.1.finish = ({ fed.1 with isFinished := true }, []) ∧
          (forall ms, Response.ofJson (.array items) = .ok ms ↔
            fed.1.errorCount = 0 ∧ fed.1.messages = ms) ∧
          (forall k fault, Response.ofJson (.array items) = .error (.notMessage k fault) ↔
            exists before preview after,
              fed.2 = List.map Event.message before ++
                  .error (.notMessage preview fault) :: after ∧
                before.length = k)) ∧
      (forall chunks, chunks.flatten <+: front ++ text ->
        ((start settings).feedAll chunks).2 =
          events.take (Element.within layout.elements (chunks.flatten.length - front.length)) ++
            (if front.length + layout.closing < chunks.flatten.length
              then [.complete (Event.messages events).length] else [])) := by
  refine ⟨exists_layout htext hne hobjects, ?_⟩
  intro layout events
  have hlength : events.length = items.length := by
    have hsame := layout.laid.length_eq
    simp only [events, itemEvents, List.length_zipWith]
    omega
  refine ⟨hlength, ?_, ?_⟩
  · intro rest chunks hchunks fed
    rcases feedAll_of_list settings (.of_preamble hfront) layout hne hobjects hchunks with
      ⟨hevents, hmessages, herrors, hcomplete, hfinished, hplace⟩
    refine ⟨hevents, finish_of_closed hplace hcomplete hfinished, ?_, ?_⟩
    · intro ms
      rw [herrors, hmessages]
      exact layout.laid.ofItems_eq_ok_iff settings 0 ms
    · intro k fault
      rw [hevents]
      have hiff := layout.laid.ofItems_eq_error_iff settings 0 k
        (Event.messages events).length fault
      simp only [Nat.zero_add] at hiff
      exact hiff
  · intro chunks hpart
    exact feedAll_of_part settings (.of_preamble hfront) layout hne hobjects hpart

/-- A list of one request for rendering, without its closing bracket. -/
def openRequest : Bytes :=
  [0x5b, 0x7b, 0x22, 0x74, 0x79, 0x70, 0x65, 0x22, 0x3a, 0x22, 0x62, 0x65, 0x67, 0x69, 0x6e,
    0x52, 0x65, 0x6e, 0x64, 0x65, 0x72, 0x69, 0x6e, 0x67, 0x22, 0x7d]

def requestAndBlank : List Json :=
  [.object [("type", .text "beginRendering")], .object []]

def blankLayout :
    Layout (openRequest ++ [0x2c, 0x7b, 0x7d, 0x5d]) requestAndBlank where
  elements := [⟨[0x5b], openRequest.tail⟩, ⟨[0x2c], [0x7b, 0x7d]⟩]
  before := []
  after := []
  laid := .cons ⟨⟨[], [], Json.space_nil, Json.space_nil, rfl⟩,
      ⟨openRequest.tail.tail.dropLast, rfl⟩, rfl⟩
    (.cons ⟨⟨[], [], Json.space_nil, Json.space_nil, rfl⟩, ⟨[], rfl⟩, rfl⟩ .nil)
  before_space := Json.space_nil
  after_space := Json.space_nil
  text_eq := rfl

/-- The list comes after the word [x], is cut inside a string, and a bracket follows it. -/
theorem feedAll_agrees_after_word :
    let word := [0x5b, 0x78, 0x5d, 0x20]
    let fed := (start .standard).feedAll
      [word ++ openRequest.take 5, openRequest.drop 5 ++ [0x2c, 0x7b, 0x7d, 0x5d, 0x5d]]
    fed.2 = [.message (.beginRendering none),
        .error (.notMessage "\x7b\x7d" (.missingField "type")), .complete 1] ∧
      fed.1.finish = ({ fed.1 with isFinished := true }, []) ∧
      Response.ofJson (.array requestAndBlank) = .error (.notMessage 1 (.missingField "type")) := by
  intro word fed
  have hfront : Preamble word := by
    constructor
    · decide
    · intro a b htext
      rcases List.cons_eq_append_iff.1 htext with ⟨rfl, hb⟩ | ⟨a, rfl, hb⟩
      · cases hb
        exact ⟨[0x78], [0x20], rfl, by decide, by decide⟩
      · have hmem : (0x5b : UInt8) ∈ [0x78, 0x5d, 0x20] := by
          rw [hb]
          simp
        exact absurd hmem (by decide)
  have htext : Json.ofBytes (openRequest ++ [0x2c, 0x7b, 0x7d, 0x5d]) =
      .ok (.array requestAndBlank) := rfl
  have hobjects : forall item, item ∈ requestAndBlank -> exists fields, item = .object fields := by
    simp [requestAndBlank]
  have hnonempty : requestAndBlank ≠ [] := by simp [requestAndBlank]
  rcases (feedAll_agrees_with_ofJson .standard hfront htext hnonempty hobjects).2 blankLayout with
    ⟨_, hfed, _⟩
  rcases hfed [0x5d] [word ++ openRequest.take 5,
    openRequest.drop 5 ++ [0x2c, 0x7b, 0x7d, 0x5d, 0x5d]] rfl with
    ⟨hevents, hfinish, _, herror⟩
  have hitems : fed.2 = [.message (.beginRendering none),
      .error (.notMessage "\x7b\x7d" (.missingField "type")), .complete 1] := hevents
  refine ⟨hitems, hfinish, (herror 1 _).2 ?_⟩
  exact ⟨[.beginRendering none], "\x7b\x7d", [.complete 1], hitems, rfl⟩

end Assembler
end SurfaceFeed
