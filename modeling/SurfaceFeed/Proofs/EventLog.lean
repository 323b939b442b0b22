import SurfaceFeed.Proofs.ChunkEnds
import SurfaceFeed.Proofs.LoneObject
import SurfaceFeed.Proofs.Message.Equality
import SurfaceFeed.Proofs.Truncation

/-!
# The events of a stream

## Calls

An assembler may be fed and finished in any order, and as often as its owner
likes.  Whatever the calls are, what the assembler says of itself is what its
events say, and nothing happens any more once the stream is complete.
-/

namespace SurfaceFeed

theorem Event.isComplete_iff {event : Event} :
    event.isComplete = true ↔ exists n, event = .complete n := by
  cases event <;> simp [Event.isComplete]

inductive Call where
  | feed (chunk : Bytes)
  | finish

namespace Assembler

def perform (a : Assembler) : Call -> Assembler × List Event
  | .feed chunk => a.feed chunk
  | .finish => a.finish

def run (a : Assembler) : List Call -> Assembler × List Event
  | [] => (a, [])
  | call :: calls =>
      let (a, events) := a.perform call
      let (a, more) := a.run calls
      (a, events ++ more)

/-! ## The state is what the events say -/

/-- The way from `a` to `b` has brought these events, and `b` has counted them. -/
structure Recorded (a b : Assembler) (events : List Event) : Prop where
  messages : b.messages = a.messages ++ Event.messages events
  errorCount : b.errorCount = a.errorCount + events.countP Event.isError
  isComplete : b.isComplete = (a.isComplete || events.any Event.isComplete)

theorem Recorded.refl (a : Assembler) : Recorded a a [] := by
  constructor
  · exact (List.append_nil a.messages).symm
  · rfl
  · exact (Bool.or_false a.isComplete).symm

theorem Recorded.trans {a b c : Assembler} {events more : List Event}
    (hab : Recorded a b events) (hbc : Recorded b c more) : Recorded a c (events ++ more) := by
  constructor
  · rw [hbc.messages, hab.messages, Event.messages_append, List.append_assoc]
  · rw [hbc.errorCount, hab.errorCount, List.countP_append, Nat.add_assoc]
  · rw [hbc.isComplete, hab.isComplete, List.any_append, Bool.or_assoc]

theorem recorded_record (a : Assembler) (event : Event) :
    Recorded a (a.record event) [event] := by
  cases event with
  | message m =>
      constructor
      · rfl
      · rfl
      · exact (Bool.or_false a.isComplete).symm
  | error e =>
      constructor
      · exact (List.append_nil a.messages).symm
      · rfl
      · exact (Bool.or_false a.isComplete).symm
  | complete count =>
      constructor
      · exact (List.append_nil a.messages).symm
      · rfl
      · exact (Bool.or_true a.isComplete).symm

theorem recorded_foldl (a : Assembler) (events : List Event) :
    Recorded a (events.foldl record a) events := by
  induction events generalizing a with
  | nil => exact Recorded.refl a
  | cons event events ih => exact (recorded_record a event).trans (ih (a.record event))

theorem recorded_react (a : Assembler) (signals : List Signal) :
    Recorded a (a.react signals).1 (a.react signals).2 := by
  induction signals generalizing a with
  | nil => exact Recorded.refl a
  | cons signal signals ih =>
      exact (recorded_record a (a.eventOf signal)).trans (ih (a.record (a.eventOf signal)))

theorem recorded_complete (a : Assembler) : Recorded a a.complete.1 a.complete.2 := by
  unfold complete
  split
  · exact Recorded.refl a
  · exact recorded_record a (.complete a.messages.length)

theorem recorded_feed (a : Assembler) (chunk : Bytes) :
    Recorded a (a.feed chunk).1 (a.feed chunk).2 := by
  cases hover : a.isOver with
  | true =>
      rw [feed_of_isOver hover]
      exact Recorded.refl a
  | false =>
      have hreact := recorded_react a (a.scanner.scan chunk).2
      rw [feed_of_not_isOver hover]
      exact ⟨hreact.messages, hreact.errorCount, hreact.isComplete⟩

theorem recorded_finish (a : Assembler) : Recorded a a.finish.1 a.finish.2 := by
  cases hfinished : a.isFinished with
  | true =>
      have hnothing : a.finish = (a, []) := by
        rw [finish, if_pos hfinished]
      rw [hnothing]
      exact Recorded.refl a
  | false =>
      have hkept := recorded_foldl { a with isFinished := true } a.recovered
      have hended := hkept.trans (recorded_complete _)
      rw [finish_of_not_isFinished hfinished]
      exact ⟨hended.messages, hended.errorCount, hended.isComplete⟩

/-! ## Completion

An assembler is complete when it takes no more input, and then it fires nothing.
-/

/-- Nothing follows the event that ends a stream, and nothing comes once it was fired. -/
structure Course (a b : Assembler) (events : List Event) : Prop
    extends Recorded a b events where
  last : forall before n after, events = before ++ .complete n :: after ->
    after = [] ∧ n = b.messages.length
  silent : a.isComplete = true -> events = []

theorem Course.refl (a : Assembler) : Course a a [] := by
  refine ⟨Recorded.refl a, ?_, fun _ => rfl⟩
  intro before n after h
  cases before <;> cases h

theorem Course.trans {a b c : Assembler} {events more : List Event}
    (hab : Course a b events) (hbc : Course b c more) : Course a c (events ++ more) := by
  refine ⟨hab.toRecorded.trans hbc.toRecorded, ?_, ?_⟩
  · intro before n after h
    rcases List.append_eq_append_iff.1 h with ⟨front, rfl, hmore⟩ | ⟨rest, hevents, hafter⟩
    · exact hbc.last front n after hmore
    · cases rest with
      | nil => exact hbc.last [] n after hafter.symm
      | cons event rest =>
          -- the stream was completed in the first part, and the second has no events
          cases (List.cons.inj hafter).1
          rcases hab.last before n rest hevents with ⟨rfl, hn⟩
          have hcomplete : b.isComplete = true := by
            rw [hab.isComplete, hevents]
            simp [Event.isComplete]
          have hnone := hbc.silent hcomplete
          have hmessages := hbc.messages
          rw [hnone] at hmessages
          have hkept : c.messages = b.messages := hmessages.trans (List.append_nil _)
          rw [hkept, (List.cons.inj hafter).2, hnone]
          exact ⟨rfl, hn⟩
  · intro hcomplete
    have hb : b.isComplete = true := by
      rw [hab.isComplete, hcomplete]
      rfl
    rw [hab.silent hcomplete, hbc.silent hb]
    rfl

theorem Course.of_front {a b : Assembler} {front events : List Event}
    (h : Recorded a b events) (hopen : a.isComplete = false)
    (hfront : forall event, event ∈ front -> event.isComplete = false)
    (hevents : events = front ∨ events = front ++ [.complete b.messages.length]) :
    Course a b events := by
  refine ⟨h, ?_, ?_⟩
  · intro before n after hsplit
    have hmem : Event.complete n ∈ events := by
      rw [hsplit]
      simp
    have hnot : Event.complete n ∉ front := fun hmem => nomatch hfront _ hmem
    rcases hevents with hevents | hevents
    · rw [hevents] at hmem
      exact absurd hmem hnot
    · rw [hsplit] at hevents
      rcases List.append_eq_append_iff.1 hevents with ⟨rest, hrest, hlast⟩ | ⟨rest, _, hlast⟩
      · cases rest with
        | nil =>
            cases hlast
            exact ⟨rfl, rfl⟩
        | cons event rest =>
            cases (List.cons.inj hlast).1
            exact absurd (by rw [hrest]; simp) hnot
      · cases rest with
        | nil =>
            cases hlast
            exact ⟨rfl, rfl⟩
        | cons event rest => cases rest <;> cases (List.cons.inj hlast).2
  · intro hcomplete
    rw [hopen] at hcomplete
    cases hcomplete

theorem Course.countP_isComplete {a b : Assembler} {events : List Event}
    (h : Course a b events) : events.countP Event.isComplete ≤ 1 := by
  by_cases hfired : exists event, event ∈ events ∧ event.isComplete = true
  · rcases hfired with ⟨event, hmem, hevent⟩
    rcases Event.isComplete_iff.1 hevent with ⟨n, rfl⟩
    rcases List.append_of_mem hmem with ⟨before, after, hsplit⟩
    have hbefore : before.countP Event.isComplete = 0 := by
      rw [List.countP_eq_zero]
      intro earlier hearlier hcomplete
      rcases Event.isComplete_iff.1 hcomplete with ⟨k, rfl⟩
      rcases List.append_of_mem hearlier with ⟨front, rest, rfl⟩
      rw [List.append_assoc] at hsplit
      have hnone := (h.last front k _ hsplit).1
      cases rest <;> cases hnone
    rw [hsplit, (h.last before n after hsplit).1, List.countP_append, hbefore]
    exact Nat.le_refl 1
  · have hnone : events.countP Event.isComplete = 0 := by
      rw [List.countP_eq_zero]
      intro event hmem hevent
      exact hfired ⟨event, hmem, hevent⟩
    rw [hnone]
    exact Nat.zero_le 1

theorem isComplete_readObject (settings : Settings) (text : Bytes) :
    (readObject settings text).isComplete = false := by
  unfold readObject
  repeat' split
  all_goals rfl

/-- The list is signalled to have ended just if the scanner has closed. -/
theorem course_feed {a : Assembler} (h : a.isComplete = a.isOver) (chunk : Bytes) :
    Course a (a.feed chunk).1 (a.feed chunk).2 ∧
      (a.feed chunk).1.isComplete = (a.feed chunk).1.isOver := by
  cases hover : a.isOver with
  | true =>
      rw [feed_of_isOver hover]
      exact ⟨Course.refl a, h⟩
  | false =>
      have hopen : a.isComplete = false := h.trans hover
      have hrecorded := recorded_feed a chunk
      have hended := isOver_feed_of_not_isOver hover chunk
      have hevents : (a.feed chunk).2 = (a.react (a.scanner.scan chunk).2).2 := by
        rw [feed_of_not_isOver hover]
      have hfront : forall objects : List Bytes, forall event,
          event ∈ objects.map (readObject a.settings) -> event.isComplete = false := by
        intro objects event hevent
        rcases List.mem_map.1 hevent with ⟨object, _, rfl⟩
        exact isComplete_readObject a.settings object
      have hnone : forall objects : List Bytes,
          (objects.map (readObject a.settings)).any Event.isComplete = false := by
        intro objects
        rw [List.any_eq_false]
        intro event hevent
        simp [hfront objects event hevent]
      rcases Scanner.exists_objects_of_scan (Bool.or_eq_false_iff.1 hover).1 chunk with
        ⟨objects, ⟨hclosed, hsignals⟩ | ⟨hclosed, hsignals⟩⟩
      · rw [hsignals, react_objects] at hevents
        refine ⟨Course.of_front hrecorded hopen (hfront objects) (.inl hevents), ?_⟩
        rw [hrecorded.isComplete, hended, hclosed, hopen, hevents, hnone]
        rfl
      · have hmessages := messages_react a (objects.map .object)
        rw [hsignals, react_append, react_objects] at hevents
        have hcount : (a.feed chunk).1.messages = (a.react (objects.map .object)).1.messages := by
          rw [hrecorded.messages, hevents, Event.messages_append, hmessages, react_objects]
          exact congrArg (a.messages ++ ·) (List.append_nil _)
        refine ⟨Course.of_front hrecorded hopen (hfront objects) (.inr ?_), ?_⟩
        · rw [hevents, hcount]
          rfl
        · rw [hrecorded.isComplete, hended, hclosed, hevents, List.any_append]
          simp [react, eventOf, Event.isComplete]

theorem isFinished_foldl_record (a : Assembler) (events : List Event) :
    (events.foldl record a).isFinished = a.isFinished := by
  induction events generalizing a with
  | nil => rfl
  | cons event events ih =>
      rw [List.foldl_cons, ih]
      cases event <;> rfl

theorem isFinished_complete (a : Assembler) : a.complete.1.isFinished = a.isFinished := by
  unfold complete
  split <;> rfl

theorem isComplete_complete (a : Assembler) : a.complete.1.isComplete = true := by
  unfold complete
  split
  · assumption
  · rfl

theorem finish_isOver (a : Assembler) (h : a.isComplete = a.isOver) :
    a.finish.1.isComplete = true ∧ a.finish.1.isOver = true := by
  cases hfinished : a.isFinished with
  | true =>
      have hover : a.isOver = true := by
        rw [isOver, hfinished, Bool.or_true]
      rw [finish, if_pos hfinished]
      exact ⟨h.trans hover, hover⟩
  | false =>
      rw [finish_of_not_isFinished hfinished]
      refine ⟨isComplete_complete _, ?_⟩
      rw [isOver, isFinished_complete, isFinished_foldl_record]
      exact Bool.or_true _

theorem course_finish {a : Assembler} (h : a.isComplete = a.isOver) :
    Course a a.finish.1 a.finish.2 := by
  have hrecorded := recorded_finish a
  cases hfinished : a.isFinished with
  | true =>
      rw [finish, if_pos hfinished]
      exact Course.refl a
  | false =>
      have hclosed : a.scanner.place.isClosed = a.isComplete := by
        rw [h, isOver, hfinished, Bool.or_false]
      cases hopen : a.isComplete with
      | true =>
          -- the list has ended, and nothing is left to recover or to complete
          rw [hopen] at hclosed
          rw [finish_of_closed (Place.eq_closed_of_isClosed hclosed) hopen hfinished]
          refine ⟨⟨(List.append_nil _).symm, rfl, (Bool.or_false _).symm⟩, ?_, fun _ => rfl⟩
          exact (Course.refl a).last
      | false =>
          have hfront : forall event, event ∈ a.recovered -> event.isComplete = false :=
            fun _ => isComplete_of_mem_recovered
          refine Course.of_front hrecorded hopen hfront (.inr ?_)
          have hkept := recorded_foldl { a with isFinished := true } a.recovered
          have hkept_open :
              (a.recovered.foldl record { a with isFinished := true }).isComplete = false := by
            rw [hkept.isComplete, hopen, Bool.false_or, List.any_eq_false]
            intro event hevent
            simp [hfront event hevent]
          rw [finish_of_not_isFinished hfinished]
          unfold complete
          rw [if_neg (by simp [hkept_open])]
          rfl

theorem course_perform {a : Assembler} (h : a.isComplete = a.isOver) (call : Call) :
    Course a (a.perform call).1 (a.perform call).2 ∧
      (a.perform call).1.isComplete = (a.perform call).1.isOver := by
  cases call with
  | feed chunk => exact course_feed h chunk
  | finish =>
      rcases finish_isOver a h with ⟨hcomplete, hover⟩
      exact ⟨course_finish h, hcomplete.trans hover.symm⟩

theorem course_run {a : Assembler} (h : a.isComplete = a.isOver) (calls : List Call) :
    Course a (a.run calls).1 (a.run calls).2 ∧
      (a.run calls).1.isComplete = (a.run calls).1.isOver := by
  induction calls generalizing a with
  | nil => exact ⟨Course.refl a, h⟩
  | cons call calls ih =>
      rcases course_perform h call with ⟨hcall, hafter⟩
      rcases ih hafter with ⟨hcalls, hended⟩
      exact ⟨hcall.trans hcalls, hended⟩

theorem isComplete_run {a : Assembler} (h : a.isComplete = a.isOver) {calls : List Call}
    (hfinish : .finish ∈ calls) : (a.run calls).1.isComplete = true := by
  induction calls generalizing a with
  | nil => cases hfinish
  | cons call calls ih =>
      have hafter := (course_perform h call).2
      rcases List.mem_cons.1 hfinish with hcall | hcalls
      · have hcomplete : (a.perform call).1.isComplete = true := by
          rw [← hcall]
          exact (finish_isOver a h).1
        show ((a.perform call).1.run calls).1.isComplete = true
        rw [(course_run hafter calls).1.isComplete, hcomplete]
        rfl
      · exact ih hafter hcalls

/-! ## What finishing adds -/

/-- What is taken from some messages equals nothing that was delivered before it. -/
theorem not_beq_of_undelivered {delivered ms front rest : List Message} {m : Message}
    (h : undelivered delivered ms = front ++ m :: rest) :
    forall d, d ∈ delivered ++ front -> (d == m) = false := by
  induction ms generalizing delivered front with
  | nil => cases front <;> cases h
  | cons first ms ih =>
      rw [undelivered] at h
      cases hfirst : delivered.any (· == first) with
      | true =>
          rw [hfirst, if_pos rfl] at h
          exact ih h
      | false =>
          rw [hfirst, if_neg (by decide)] at h
          cases front with
          | nil =>
              cases (List.cons.inj h).1
              intro d hd
              rw [List.append_nil] at hd
              exact eq_false_of_ne_true (List.any_eq_false.1 hfirst d hd)
          | cons first' front =>
              cases (List.cons.inj h).1
              have hrest := ih (List.cons.inj h).2
              rw [List.append_assoc] at hrest
              exact hrest

theorem recovered_cases (a : Assembler) :
    (exists ms, a.recovered = (undelivered a.messages ms).map .message) ∨
      exists e, a.recovered = [.error e] := by
  unfold recovered
  split
  · exact .inl ⟨[], rfl⟩
  · rw [recovery]
    repeat' split
    · exact .inl ⟨[], rfl⟩
    · exact .inl ⟨_, rfl⟩
    · exact .inl ⟨[], rfl⟩
    · exact .inr ⟨_, rfl⟩

theorem not_beq_of_finish {a : Assembler} {front rest : List Event} {m : Message}
    (h : a.finish.2 = front ++ .message m :: rest) :
    forall d, d ∈ a.messages ++ Event.messages front -> (d == m) = false := by
  cases hfinished : a.isFinished with
  | true =>
      rw [finish, if_pos hfinished] at h
      cases front <;> cases h
  | false =>
      have hfilter := congrArg (List.filter fun event => !event.isComplete) h
      rw [← recovered_eq_filter hfinished, List.filter_append,
        List.filter_cons_of_pos (by rfl)] at hfilter
      have hfront : Event.messages (front.filter fun event => !event.isComplete) =
          Event.messages front := by
        rw [Event.messages, Event.messages, List.filterMap_filter]
        apply List.filterMap_congr
        intro event _
        cases event <;> rfl
      rw [← hfront]
      rcases recovered_cases a with ⟨ms, hms⟩ | ⟨e, he⟩
      · rw [hms] at hfilter
        rcases List.map_eq_append_iff.1 hfilter with ⟨before, after, hsplit, hbefore, hafter⟩
        rcases List.map_eq_cons_iff.1 hafter with ⟨m', after', rfl, hm, _⟩
        cases hm
        rw [← hbefore, Event.messages_map_message]
        exact not_beq_of_undelivered hsplit
      · rw [he] at hfilter
        rcases List.singleton_eq_append_iff.1 hfilter with ⟨_, hlast⟩ | ⟨_, hlast⟩ <;> cases hlast

/-! ## The log of any calls -/

/--
Whatever the calls are: the stream is completed at most once, last of all, and with the number
of its messages; it is complete just if this was fired, as it is after finishing; messages and
errors are those of the events; a chunk is said to complete the messages that it fires; once the
stream is complete nothing happens any more; and finishing delivers nothing that equals a
message delivered before.
-/
theorem run_log (settings : Settings) (calls : List Call) :
    let ended := (start settings).run calls
    (ended.2.countP Event.isComplete ≤ 1 ∧
      forall before n after, ended.2 = before ++ .complete n :: after ->
        after = [] ∧ n = ended.1.messages.length) ∧
    ((ended.1.isComplete = true ↔ exists n, .complete n ∈ ended.2) ∧
      (.finish ∈ calls -> ended.1.isComplete = true)) ∧
    (ended.1.messages = Event.messages ended.2 ∧
      ended.1.errorCount = ended.2.countP Event.isError) ∧
    (forall chunk, ended.1.completedBy chunk = (Event.messages (ended.1.feed chunk).2).length) ∧
    ((exists n, .complete n ∈ ended.2) -> forall more,
      (ended.1.run more).2 = [] ∧ (ended.1.run more).1.messages = ended.1.messages ∧
        (ended.1.run more).1.errorCount = ended.1.errorCount ∧
        forall chunk, (ended.1.run more).1.completedBy chunk = 0) ∧
    forall front m rest, ended.1.finish.2 = front ++ .message m :: rest ->
      forall d, d ∈ ended.1.messages ++ Event.messages front -> (m == d) = false := by
  intro ended
  have hstart : (start settings).isComplete = (start settings).isOver := rfl
  rcases course_run hstart calls with ⟨hcourse, hended⟩
  have hcomplete : ended.1.isComplete = true ↔ exists n, .complete n ∈ ended.2 := by
    have hany : ended.1.isComplete = ended.2.any Event.isComplete := hcourse.isComplete
    rw [hany, List.any_eq_true]
    constructor
    · intro h
      rcases h with ⟨event, hmem, hevent⟩
      rcases Event.isComplete_iff.1 hevent with ⟨n, rfl⟩
      exact ⟨n, hmem⟩
    · intro h
      rcases h with ⟨n, hmem⟩
      exact ⟨.complete n, hmem, rfl⟩
  refine ⟨⟨?_, hcourse.last⟩, ⟨hcomplete, isComplete_run hstart⟩, ⟨hcourse.messages, ?_⟩,
    completedBy_eq ended.1, ?_, ?_⟩
  · exact hcourse.countP_isComplete
  · exact hcourse.errorCount.trans (Nat.zero_add _)
  · intro hfired more
    rcases course_run hended more with ⟨hmore, hafter⟩
    have hnone : (ended.1.run more).2 = [] := hmore.silent (hcomplete.2 hfired)
    have hkept : Recorded ended.1 (ended.1.run more).1 [] := by
      rw [← hnone]
      exact hmore.toRecorded
    refine ⟨hnone, hkept.messages.trans (List.append_nil _), hkept.errorCount, ?_⟩
    intro chunk
    have hover : (ended.1.run more).1.isComplete = true := by
      rw [hkept.isComplete, hcomplete.2 hfired]
      rfl
    rw [completedBy_eq, (course_feed hafter chunk).1.silent hover]
    rfl
  · intro front m rest h d hd
    rw [Message.beq_comm]
    exact not_beq_of_finish h d hd

/-- A list of one request for rendering. -/
def requestList : Bytes :=
  [0x5b, 0x7b, 0x22, 0x74, 0x79, 0x70, 0x65, 0x22, 0x3a, 0x22, 0x62, 0x65, 0x67, 0x69, 0x6e,
    0x52, 0x65, 0x6e, 0x64, 0x65, 0x72, 0x69, 0x6e, 0x67, 0x22, 0x7d, 0x5d]

theorem run_log_of_requestList :
    let ended := (start .standard).run [.feed requestList, .finish, .feed requestList]
    ended.2 = [.message (.beginRendering none), .complete 1] ∧
      ended.1.isComplete = true ∧ (ended.1.run [.finish, .feed requestList]).2 = [] := by
  intro ended
  have hlog : ended.2 = [.message (.beginRendering none), .complete 1] := rfl
  have hfired : exists n, Event.complete n ∈ ended.2 := ⟨1, by rw [hlog]; simp⟩
  rcases run_log .standard [.feed requestList, .finish, .feed requestList] with
    ⟨_, ⟨hcomplete, _⟩, _, _, hsilent, _⟩
  exact ⟨hlog, hcomplete.2 hfired, (hsilent hfired _).1⟩

end Assembler
end SurfaceFeed
