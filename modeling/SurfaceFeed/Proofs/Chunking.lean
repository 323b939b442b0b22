import SurfaceFeed.Assembler

/-!
# Chunks of a stream

## Where the chunks of a text end does not matter while it is fed

Between two chunks the scanner lets go of bytes, so the scanner after some
chunks and the scanner after the same bytes in one piece need not hold the same.
They agree on all that decides about later signals: the lexical state, the kind
of place, and the bytes of an open object.  Two assemblers whose scanners agree
fire the same events from then on.
-/

namespace SurfaceFeed

/-! ## Places that agree -/

namespace Place

/-- Agreement on all but the bytes that are held while no object is open. -/
inductive Alike : Place -> Place -> Prop where
  | outside {held held' : Bytes} : Alike (.outside held) (.outside held')
  | list {held held' : Bytes} {anyObject : Bool} :
      Alike (.list held anyObject) (.list held' anyObject)
  | object {held : Bytes} {depth : Nat} : Alike (.object held depth) (.object held depth)
  | closed : Alike .closed .closed

theorem Alike.refl (p : Place) : Alike p p := by
  cases p with
  | outside held => exact .outside
  | list held anyObject => exact .list
  | object held depth => exact .object
  | closed => exact .closed

theorem Alike.symm {p q : Place} (h : Alike p q) : Alike q p := by
  cases h with
  | outside => exact .outside
  | list => exact .list
  | object => exact .object
  | closed => exact .closed

theorem Alike.trans {p q r : Place} (hpq : Alike p q) (hqr : Alike q r) : Alike p r := by
  cases hpq with
  | outside =>
      cases hqr
      exact .outside
  | list =>
      cases hqr
      exact .list
  | object => exact hqr
  | closed => exact hqr

theorem Alike.hold {p q : Place} (h : Alike p q) (b : UInt8) :
    Alike (p.hold b) (q.hold b) := by
  cases h with
  | outside => exact .outside
  | list => exact .list
  | object => exact .object
  | closed => exact .closed

theorem Alike.turn {p q : Place} (h : Alike p q) (b : UInt8) :
    Alike (p.turn b).1 (q.turn b).1 ∧ (p.turn b).2 = (q.turn b).2 := by
  cases h with
  | outside =>
      dsimp only [Place.turn]
      cases b == 0x5b with
      | true => exact ⟨.list, rfl⟩
      | false => exact ⟨.outside, rfl⟩
  | @list held held' anyObject =>
      dsimp only [Place.turn]
      cases b == 0x5d with
      | true =>
          cases anyObject with
          | true => exact ⟨.closed, rfl⟩
          | false => exact ⟨.outside, rfl⟩
      | false =>
          cases b == 0x7b with
          | true => exact ⟨.object, rfl⟩
          | false => exact ⟨.list, rfl⟩
  | object => exact ⟨Alike.refl _, rfl⟩
  | closed => exact ⟨.closed, rfl⟩

theorem alike_settle (p : Place) : Alike p.settle p := by
  cases p with
  | outside held => exact .outside
  | list held anyObject => exact .list
  | object held depth => exact .object
  | closed => exact .closed

theorem Alike.isClosed_eq {p q : Place} (h : Alike p q) : p.isClosed = q.isClosed := by
  cases h <;> rfl

theorem isClosed_settle (p : Place) : p.settle.isClosed = p.isClosed := by
  cases p <;> rfl

theorem eq_closed_of_isClosed {p : Place} (h : p.isClosed = true) : p = closed := by
  cases p with
  | closed => rfl
  | outside held => cases h
  | list held anyObject => cases h
  | object held depth => cases h

end Place

/-! ## Scanners that agree -/

namespace Scanner

structure Alike (s t : Scanner) : Prop where
  place : Place.Alike s.place t.place
  lexical : s.place.isClosed = false -> s.lexical = t.lexical

theorem Alike.refl (s : Scanner) : Alike s s :=
  ⟨Place.Alike.refl _, fun _ => rfl⟩

theorem Alike.symm {s t : Scanner} (h : Alike s t) : Alike t s := by
  refine ⟨h.place.symm, fun hopen => (h.lexical ?_).symm⟩
  rw [h.place.isClosed_eq]
  exact hopen

theorem Alike.trans {s t u : Scanner} (hst : Alike s t) (htu : Alike t u) : Alike s u := by
  refine ⟨hst.place.trans htu.place, fun hopen => (hst.lexical hopen).trans (htu.lexical ?_)⟩
  rw [← hst.place.isClosed_eq]
  exact hopen

theorem scan_closed {s : Scanner} (h : s.place = .closed) (bytes : Bytes) :
    (s.scan bytes).1.place = .closed ∧ (s.scan bytes).2 = [] := by
  induction bytes generalizing s with
  | nil => exact ⟨h, rfl⟩
  | cons b rest ih =>
      rcases s with ⟨lexical, place⟩
      cases h
      cases lexical <;> exact ih rfl

theorem turn_closed {p q : Place} {b : UInt8} (h : p.turn b = (q, some .closed)) :
    q = .closed := by
  cases p with
  | outside held => simp [Place.turn] at h
  | closed => simp [Place.turn] at h
  | list held anyObject =>
      simp only [Place.turn] at h
      repeat' split at h
      all_goals simp_all
  | object held depth =>
      simp only [Place.turn] at h
      repeat' split at h
      all_goals simp_all

theorem place_of_closed_mem {s : Scanner} {bytes : Bytes}
    (h : Signal.closed ∈ (s.scan bytes).2) : (s.scan bytes).1.place = .closed := by
  induction bytes generalizing s with
  | nil => cases h
  | cons b rest ih =>
      rcases List.mem_append.1 h with hfirst | hrest
      · have hplace : (s.step b).1.place = .closed := by
          rcases s with ⟨lexical, place⟩
          cases lexical with
          | plain =>
              have hsignal : ((place.hold b).turn b).2 = some .closed :=
                Option.mem_toList.1 hfirst
              exact turn_closed (Prod.ext rfl hsignal)
          | quoted => cases hfirst
          | escaped => cases hfirst
        exact (scan_closed hplace rest).1
      · exact ih hrest

theorem Alike.step {s t : Scanner} (h : Alike s t) (b : UInt8) :
    Alike (s.step b).1 (t.step b).1 ∧ (s.step b).2 = (t.step b).2 := by
  rcases s with ⟨lexical, p⟩
  rcases t with ⟨lexical', q⟩
  have hplace : Place.Alike p q := h.place
  cases hclosed : p.isClosed with
  | true =>
      have hp : p = .closed := Place.eq_closed_of_isClosed hclosed
      have hq : q = .closed :=
        Place.eq_closed_of_isClosed (hplace.isClosed_eq.symm.trans hclosed)
      subst hp hq
      cases lexical <;> cases lexical' <;>
        exact ⟨⟨.closed, fun hopen => nomatch hopen⟩, rfl⟩
  | false =>
      have hlexical : lexical = lexical' := h.lexical hclosed
      subst hlexical
      have hheld : Place.Alike (p.hold b) (q.hold b) := hplace.hold b
      cases lexical with
      | plain =>
          rcases hheld.turn b with ⟨hturn, hsignal⟩
          exact ⟨⟨hturn, fun _ => rfl⟩, hsignal⟩
      | quoted => exact ⟨⟨hheld, fun _ => rfl⟩, rfl⟩
      | escaped => exact ⟨⟨hheld, fun _ => rfl⟩, rfl⟩

theorem Alike.scan {s t : Scanner} (h : Alike s t) (bytes : Bytes) :
    Alike (s.scan bytes).1 (t.scan bytes).1 ∧ (s.scan bytes).2 = (t.scan bytes).2 := by
  induction bytes generalizing s t with
  | nil => exact ⟨h, rfl⟩
  | cons b rest ih =>
      rcases h.step b with ⟨hstep, hsignal⟩
      rcases ih hstep with ⟨hscan, hsignals⟩
      refine ⟨hscan, ?_⟩
      simp only [Scanner.scan]
      rw [hsignal, hsignals]

theorem Alike.settle {s t : Scanner} (h : Alike s t) : Alike s.settle t.settle := by
  rcases s with ⟨lexical, p⟩
  rcases t with ⟨lexical', q⟩
  have hplace : Place.Alike p.settle q.settle :=
    ((Place.alike_settle p).trans h.place).trans (Place.alike_settle q).symm
  refine ⟨hplace, fun hopen => h.lexical ?_⟩
  simpa [Scanner.settle, Place.isClosed_settle] using hopen

theorem alike_settle (s : Scanner) : Alike s.settle s :=
  ⟨Place.alike_settle _, fun _ => rfl⟩

theorem isClosed_settle (s : Scanner) : s.settle.place.isClosed = s.place.isClosed :=
  Place.isClosed_settle s.place

end Scanner

/-! ## Assemblers that agree -/

namespace Event

@[simp] theorem messages_cons (event : Event) (events : List Event) :
    messages (event :: events) = event.message?.toList ++ messages events := by
  cases event <;> rfl

@[simp] theorem messages_append (events more : List Event) :
    messages (events ++ more) = messages events ++ messages more :=
  List.filterMap_append

@[simp] theorem messages_map_message (ms : List Message) :
    messages (ms.map message) = ms := by
  induction ms with
  | nil => rfl
  | cons m ms ih => rw [List.map_cons, messages_cons, ih]; rfl

def isError : Event -> Bool
  | error _ => true
  | _ => false

end Event

namespace Assembler

structure Alike (a b : Assembler) : Prop where
  scanner : a.scanner.Alike b.scanner
  others : { a with scanner := b.scanner } = b

theorem Alike.trans {a b c : Assembler} (hab : a.Alike b) (hbc : b.Alike c) : a.Alike c := by
  refine ⟨hab.scanner.trans hbc.scanner, ?_⟩
  rw [← hbc.others, ← hab.others]

theorem Alike.messages_eq {a b : Assembler} (h : a.Alike b) : a.messages = b.messages := by
  rw [← h.others]

theorem Alike.errorCount_eq {a b : Assembler} (h : a.Alike b) :
    a.errorCount = b.errorCount := by
  rw [← h.others]

theorem Alike.isComplete_eq {a b : Assembler} (h : a.Alike b) :
    a.isComplete = b.isComplete := by
  rw [← h.others]

theorem Alike.isFinished_eq {a b : Assembler} (h : a.Alike b) :
    a.isFinished = b.isFinished := by
  rw [← h.others]

theorem Alike.settings_eq {a b : Assembler} (h : a.Alike b) : a.settings = b.settings := by
  rw [← h.others]

/-! Reactions to signals do not look at the scanner, and leave the settings alone. -/

theorem react_settings (a : Assembler) (signals : List Signal) :
    (a.react signals).1.settings = a.settings := by
  induction signals generalizing a with
  | nil => rfl
  | cons signal rest ih =>
      simp only [react]
      rw [ih]
      cases a.eventOf signal <;> rfl

theorem react_isFinished (a : Assembler) (signals : List Signal) :
    (a.react signals).1.isFinished = a.isFinished := by
  induction signals generalizing a with
  | nil => rfl
  | cons signal rest ih =>
      simp only [react]
      rw [ih]
      cases a.eventOf signal <;> rfl

theorem react_with_scanner (a : Assembler) (scanner : Scanner) (signals : List Signal) :
    react { a with scanner := scanner } signals =
      ({ (a.react signals).1 with scanner := scanner }, (a.react signals).2) := by
  induction signals generalizing a with
  | nil => rfl
  | cons signal rest ih =>
      have hevent : eventOf { a with scanner := scanner } signal = a.eventOf signal := by
        cases signal <;> rfl
      have hrecord :
          record { a with scanner := scanner } (a.eventOf signal) =
            { a.record (a.eventOf signal) with scanner := scanner } := by
        cases a.eventOf signal <;> rfl
      simp only [react]
      rw [hevent, hrecord, ih]

theorem react_append (a : Assembler) (signals more : List Signal) :
    a.react (signals ++ more) =
      (((a.react signals).1.react more).1,
        (a.react signals).2 ++ ((a.react signals).1.react more).2) := by
  induction signals generalizing a with
  | nil => rfl
  | cons signal rest ih =>
      simp only [List.cons_append, react]
      rw [ih]

theorem messages_react (a : Assembler) (signals : List Signal) :
    (a.react signals).1.messages = a.messages ++ Event.messages (a.react signals).2 := by
  induction signals generalizing a with
  | nil => simp [react, Event.messages]
  | cons signal rest ih =>
      simp only [react]
      rw [ih]
      cases a.eventOf signal <;>
        simp [record, Event.messages_cons, Event.message?]

theorem errorCount_react (a : Assembler) (signals : List Signal) :
    (a.react signals).1.errorCount =
      a.errorCount + (a.react signals).2.countP Event.isError := by
  induction signals generalizing a with
  | nil => rfl
  | cons signal rest ih =>
      simp only [react]
      rw [ih, List.countP_cons]
      cases a.eventOf signal with
      | error e => simp [record, Event.isError, Nat.add_comm, Nat.add_assoc]
      | message m => simp [record, Event.isError]
      | complete count => simp [record, Event.isError]

/-! ## Feeding a text in pieces -/

theorem feed_of_isOver {a : Assembler} (h : a.isOver = true) (chunk : Bytes) :
    a.feed chunk = (a, []) := by
  rw [feed, if_pos h]

theorem feed_of_not_isOver {a : Assembler} (h : a.isOver = false) (chunk : Bytes) :
    a.feed chunk =
      ({ (a.react (a.scanner.scan chunk).2).1 with
          scanner := (a.scanner.scan chunk).1.settle },
        (a.react (a.scanner.scan chunk).2).2) := by
  rw [feed, if_neg (by simp [h])]
  exact react_with_scanner a _ _

theorem messages_feed (a : Assembler) (chunk : Bytes) :
    (a.feed chunk).1.messages = a.messages ++ Event.messages (a.feed chunk).2 := by
  cases h : a.isOver with
  | true => simp [feed_of_isOver h, Event.messages]
  | false =>
      rw [feed_of_not_isOver h]
      exact messages_react a _

theorem completedBy_eq (a : Assembler) (chunk : Bytes) :
    a.completedBy chunk = (Event.messages (a.feed chunk).2).length := by
  rw [completedBy, messages_feed]
  simp

theorem isOver_feed_of_not_isOver {a : Assembler} (h : a.isOver = false) (chunk : Bytes) :
    (a.feed chunk).1.isOver = (a.scanner.scan chunk).1.place.isClosed := by
  have hfinished : a.isFinished = false := (Bool.or_eq_false_iff.1 h).2
  rw [feed_of_not_isOver h]
  simp [isOver, react_isFinished, hfinished, Scanner.isClosed_settle]

/-- Two chunks and their concatenation fire the same events. -/
theorem feed_append (a : Assembler) (chunk more : Bytes) :
    ((a.feed chunk).1.feed more).1.Alike (a.feed (chunk ++ more)).1 ∧
      (a.feed chunk).2 ++ ((a.feed chunk).1.feed more).2 =
        (a.feed (chunk ++ more)).2 := by
  cases hover : a.isOver with
  | true =>
      simp only [feed_of_isOver hover]
      exact ⟨⟨Scanner.Alike.refl _, rfl⟩, rfl⟩
  | false =>
      have hwhole := feed_of_not_isOver hover (chunk ++ more)
      have hfirst := feed_of_not_isOver hover chunk
      have hisOver := isOver_feed_of_not_isOver hover chunk
      rw [Scanner.scan_append, react_append] at hwhole
      cases hclosed : (a.scanner.scan chunk).1.place.isClosed with
      | true =>
          -- the list ended in the first chunk, and the second is not looked at
          have hplace := Place.eq_closed_of_isClosed hclosed
          have hrest := Scanner.scan_closed hplace more
          rw [feed_of_isOver (hisOver.trans hclosed), hwhole, hfirst]
          rw [hrest.2]
          refine ⟨⟨⟨?_, ?_⟩, rfl⟩, rfl⟩
          · simp only [Scanner.settle, hplace, hrest.1]
            exact .closed
          · simp [Scanner.settle, hplace, Place.settle, Place.isClosed]
      | false =>
          have hsettle := Scanner.alike_settle (a.scanner.scan chunk).1
          rcases hsettle.scan more with ⟨hscan, hsignals⟩
          rw [feed_of_not_isOver (hisOver.trans hclosed), hwhole, hfirst]
          simp only [react_with_scanner, hsignals]
          exact ⟨⟨hscan.settle, rfl⟩, trivial⟩

/-- However a text is cut, feeding its pieces is feeding the text. -/
theorem feedAll_alike_feed (a : Assembler) (chunks : List Bytes) :
    (a.feedAll chunks).1.Alike (a.feed chunks.flatten).1 ∧
      (a.feedAll chunks).2 = (a.feed chunks.flatten).2 := by
  induction chunks generalizing a with
  | nil =>
      cases hover : a.isOver with
      | true =>
          rw [List.flatten_nil, feed_of_isOver hover]
          exact ⟨⟨Scanner.Alike.refl _, rfl⟩, rfl⟩
      | false =>
          rw [List.flatten_nil, feed_of_not_isOver hover]
          exact ⟨⟨(Scanner.alike_settle _).symm, rfl⟩, rfl⟩
  | cons chunk rest ih =>
      rcases ih (a.feed chunk).1 with ⟨hrest, hmore⟩
      rcases feed_append a chunk rest.flatten with ⟨hwhole, hevents⟩
      rw [List.flatten_cons]
      refine ⟨hrest.trans hwhole, ?_⟩
      rw [← hevents, ← hmore]
      rfl

theorem messages_feedAll (a : Assembler) (chunks : List Bytes) :
    (a.feedAll chunks).1.messages = a.messages ++ Event.messages (a.feedAll chunks).2 := by
  rcases feedAll_alike_feed a chunks with ⟨halike, hevents⟩
  rw [halike.messages_eq, hevents, messages_feed]

theorem sum_completedByEach (a : Assembler) (chunks : List Bytes) :
    (a.completedByEach chunks).foldr (· + ·) 0 =
      (Event.messages (a.feedAll chunks).2).length := by
  induction chunks generalizing a with
  | nil => rfl
  | cons chunk rest ih =>
      simp only [completedByEach, feedAll, List.foldr_cons, Event.messages_append,
        List.length_append]
      rw [ih, completedBy_eq]

theorem feedAll_alike_react {a : Assembler} (h : a.isOver = false) (chunks : List Bytes) :
    (a.feedAll chunks).1.Alike
        { (a.react (a.scanner.scan chunks.flatten).2).1 with
          scanner := (a.scanner.scan chunks.flatten).1 } ∧
      (a.feedAll chunks).2 = (a.react (a.scanner.scan chunks.flatten).2).2 := by
  rcases feedAll_alike_feed a chunks with ⟨halike, hevents⟩
  rw [feed_of_not_isOver h] at halike hevents
  exact ⟨halike.trans ⟨Scanner.alike_settle _, rfl⟩, hevents⟩

theorem feedAll_start (settings : Settings) (chunks : List Bytes) :
    ((start settings).feedAll chunks).1.Alike
        { ((start settings).react (Scanner.start.scan chunks.flatten).2).1 with
          scanner := (Scanner.start.scan chunks.flatten).1 } ∧
      ((start settings).feedAll chunks).2 =
        ((start settings).react (Scanner.start.scan chunks.flatten).2).2 :=
  feedAll_alike_react rfl chunks

/-! ## Chunking invariance -/

/--
A fresh assembler that is fed the pieces of a text one by one fires the events
that it fires when it is fed the text at once, and stands where it stands then.
-/
theorem feedAll_eq_feed_flatten (settings : Settings) (chunks : List Bytes) :
    let cut := (start settings).feedAll chunks
    let whole := (start settings).feed chunks.flatten
    cut.2 = whole.2 ∧ cut.1.messages = whole.1.messages ∧
      cut.1.errorCount = whole.1.errorCount ∧ cut.1.isComplete = whole.1.isComplete ∧
      ((start settings).completedByEach chunks).foldr (· + ·) 0 =
        (start settings).completedBy chunks.flatten := by
  intro cut whole
  rcases feedAll_alike_feed (start settings) chunks with ⟨halike, hevents⟩
  have hsum :
      ((start settings).completedByEach chunks).foldr (· + ·) 0 =
        (start settings).completedBy chunks.flatten := by
    rw [sum_completedByEach, completedBy_eq, hevents]
  exact ⟨hevents, halike.messages_eq, halike.errorCount_eq, halike.isComplete_eq, hsum⟩

end Assembler
end SurfaceFeed
