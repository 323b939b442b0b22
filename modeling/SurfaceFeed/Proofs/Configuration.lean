import SurfaceFeed.Proofs.EventLog

/-!
# What the settings of an assembler decide

## Two assemblers

The settings decide how much of a text an error quotes, and whether a remainder
that is no response is reported.  They decide nothing else: two assemblers with
other settings that get the same calls stay alike but for these errors.
-/

namespace SurfaceFeed

def StreamError.withoutPreview : StreamError -> StreamError
  | malformed _ e => malformed "" e
  | notMessage _ e => notMessage "" e
  | recovery _ e => recovery "" e

namespace Event

def withoutPreview : Event -> Event
  | message m => message m
  | error e => error e.withoutPreview
  | complete count => complete count

def isRecovery : Event -> Bool
  | error (.recovery _ _) => true
  | _ => false

theorem messages_map_withoutPreview (events : List Event) :
    messages (events.map withoutPreview) = messages events := by
  unfold messages
  rw [List.filterMap_map]
  apply List.filterMap_congr
  intro event _
  cases event <;> rfl

theorem messages_congr {events others : List Event}
    (h : events.map withoutPreview = others.map withoutPreview) :
    messages events = messages others := by
  rw [← messages_map_withoutPreview events, h, messages_map_withoutPreview]

end Event

namespace Assembler

/-- They hold and have delivered the same, whatever their settings and their errors are. -/
structure Twins (a b : Assembler) : Prop where
  scanner : a.scanner = b.scanner
  messages : a.messages = b.messages
  isComplete : a.isComplete = b.isComplete
  isFinished : a.isFinished = b.isFinished

theorem Twins.symm {a b : Assembler} (h : Twins a b) : Twins b a :=
  ⟨h.scanner.symm, h.messages.symm, h.isComplete.symm, h.isFinished.symm⟩

theorem Twins.trans {a b c : Assembler} (hab : Twins a b) (hbc : Twins b c) : Twins a c :=
  ⟨hab.scanner.trans hbc.scanner, hab.messages.trans hbc.messages,
    hab.isComplete.trans hbc.isComplete, hab.isFinished.trans hbc.isFinished⟩

theorem Twins.isOver {a b : Assembler} (h : Twins a b) : a.isOver = b.isOver := by
  rw [Assembler.isOver, Assembler.isOver, h.scanner, h.isFinished]

theorem twins_withoutPreview (a : Assembler) (event : Event) :
    Twins (a.record event) (a.record event.withoutPreview) := by
  cases event <;> exact ⟨rfl, rfl, rfl, rfl⟩

theorem Twins.record {a b : Assembler} (h : Twins a b) (event : Event) :
    Twins (a.record event) (b.record event) := by
  cases event with
  | message m => exact ⟨h.scanner, congrArg (· ++ [m]) h.messages, h.isComplete, h.isFinished⟩
  | error e => exact ⟨h.scanner, h.messages, h.isComplete, h.isFinished⟩
  | complete count => exact ⟨h.scanner, h.messages, rfl, h.isFinished⟩

theorem Twins.record_congr {a b : Assembler} (h : Twins a b) {event other : Event}
    (hevents : event.withoutPreview = other.withoutPreview) :
    Twins (a.record event) (b.record other) := by
  have hother := (twins_withoutPreview b other).symm
  rw [← hevents] at hother
  exact (twins_withoutPreview a event).trans ((h.record _).trans hother)

/-! ## Feeding twins -/

theorem withoutPreview_readObject (s t : Settings) (text : Bytes) :
    (readObject s text).withoutPreview = (readObject t text).withoutPreview := by
  unfold readObject
  split
  · rfl
  · split <;> rfl

theorem Twins.eventOf {a b : Assembler} (h : Twins a b) (signal : Signal) :
    (a.eventOf signal).withoutPreview = (b.eventOf signal).withoutPreview := by
  cases signal with
  | object text => exact withoutPreview_readObject a.settings b.settings text
  | closed => rw [Assembler.eventOf, Assembler.eventOf, h.messages]

theorem Twins.react {a b : Assembler} (h : Twins a b) (signals : List Signal) :
    Twins (a.react signals).1 (b.react signals).1 ∧
      (a.react signals).2.map Event.withoutPreview =
        (b.react signals).2.map Event.withoutPreview := by
  induction signals generalizing a b with
  | nil => exact ⟨h, rfl⟩
  | cons signal signals ih =>
      have hevent := h.eventOf signal
      rcases ih (h.record_congr hevent) with ⟨hafter, hevents⟩
      refine ⟨hafter, ?_⟩
      show (a.eventOf signal).withoutPreview :: _ = (b.eventOf signal).withoutPreview :: _
      rw [hevent]
      exact congrArg _ hevents

theorem Twins.feed {a b : Assembler} (h : Twins a b) (chunk : Bytes) :
    Twins (a.feed chunk).1 (b.feed chunk).1 ∧
      (a.feed chunk).2.map Event.withoutPreview = (b.feed chunk).2.map Event.withoutPreview := by
  cases hover : a.isOver with
  | true =>
      rw [feed_of_isOver hover, feed_of_isOver (h.isOver.symm.trans hover)]
      exact ⟨h, rfl⟩
  | false =>
      rw [feed_of_not_isOver hover, feed_of_not_isOver (h.isOver.symm.trans hover), h.scanner]
      rcases h.react (b.scanner.scan chunk).2 with ⟨hafter, hevents⟩
      exact ⟨⟨rfl, hafter.messages, hafter.isComplete, hafter.isFinished⟩, hevents⟩

theorem Twins.completedBy {a b : Assembler} (h : Twins a b) (chunk : Bytes) :
    a.completedBy chunk = b.completedBy chunk := by
  rw [completedBy_eq, completedBy_eq, Event.messages_congr (h.feed chunk).2]

/-! ## Finishing twins

Which errors finishing fires depends on the settings, but not which messages.
-/

def complaint (a : Assembler) (text : List Char) (e : ParseError) : List Event :=
  match a.settings.finishMode with
  | .lenient => []
  | .strict => [.error (.recovery (previewOf a.settings text) e)]

theorem messages_complaint (a : Assembler) (text : List Char) (e : ParseError) :
    Event.messages (a.complaint text e) = [] := by
  unfold complaint
  split <;> rfl

theorem recovery_eq (a : Assembler) :
    a.recovery =
      let text := Text.trim (Text.decodeLossy a.scanner.place.held)
      if text.isEmpty then []
      else
        match Response.ofChars text with
        | .ok ms => (undelivered a.messages ms).map .message
        | .error e => a.complaint text e :=
  rfl

theorem Twins.messages_recovered {a b : Assembler} (h : Twins a b) :
    Event.messages a.recovered = Event.messages b.recovered := by
  rw [Assembler.recovered, Assembler.recovered, recovery_eq, recovery_eq, h.scanner, h.messages]
  dsimp only
  split
  · rfl
  · split
    · rfl
    · split
      · rfl
      · rw [messages_complaint, messages_complaint]

theorem Twins.complete {a b : Assembler} (h : Twins a b) :
    Twins a.complete.1 b.complete.1 ∧ a.complete.2 = b.complete.2 := by
  rw [Assembler.complete, Assembler.complete, h.isComplete, h.messages]
  split
  · exact ⟨h, rfl⟩
  · exact ⟨h.record (.complete b.messages.length), rfl⟩

theorem foldl_record_keeps (a : Assembler) (events : List Event) :
    (events.foldl record a).settings = a.settings ∧
      (events.foldl record a).scanner = a.scanner := by
  induction events generalizing a with
  | nil => exact ⟨rfl, rfl⟩
  | cons event events ih =>
      rw [List.foldl_cons, (ih _).1, (ih _).2]
      cases event <;> exact ⟨rfl, rfl⟩

theorem settings_complete (a : Assembler) : a.complete.1.settings = a.settings := by
  unfold complete
  split <;> rfl

theorem not_isComplete_of_recovered (a : Assembler) :
    a.recovered.any Event.isComplete = false := by
  rw [List.any_eq_false]
  intro event hevent
  simp [isComplete_of_mem_recovered hevent]

theorem Twins.finish {a b : Assembler} (h : Twins a b) :
    Twins a.finish.1 b.finish.1 ∧ Event.messages a.finish.2 = Event.messages b.finish.2 := by
  cases hfinished : a.isFinished with
  | true =>
      rw [Assembler.finish, Assembler.finish, if_pos hfinished,
        if_pos (h.isFinished.symm.trans hfinished)]
      exact ⟨h, rfl⟩
  | false =>
      have ha := recorded_foldl { a with isFinished := true } a.recovered
      have hb := recorded_foldl { b with isFinished := true } b.recovered
      have hkept : Twins (a.recovered.foldl Assembler.record { a with isFinished := true })
          (b.recovered.foldl Assembler.record { b with isFinished := true }) := by
        constructor
        · rw [(foldl_record_keeps _ _).2, (foldl_record_keeps _ _).2]
          exact h.scanner
        · rw [ha.messages, hb.messages, h.messages_recovered]
          exact congrArg (· ++ _) h.messages
        · rw [ha.isComplete, hb.isComplete, not_isComplete_of_recovered,
            not_isComplete_of_recovered]
          exact congrArg (· || false) h.isComplete
        · rw [isFinished_foldl_record, isFinished_foldl_record]
      rw [finish_of_not_isFinished hfinished,
        finish_of_not_isFinished (h.isFinished.symm.trans hfinished)]
      refine ⟨hkept.complete.1, ?_⟩
      simp only [Event.messages_append, h.messages_recovered, hkept.complete.2]

/-! ## The calls of twins -/

theorem Twins.perform {a b : Assembler} (h : Twins a b) (call : Call) :
    Twins (a.perform call).1 (b.perform call).1 ∧
      Event.messages (a.perform call).2 = Event.messages (b.perform call).2 := by
  cases call with
  | feed chunk => exact ⟨(h.feed chunk).1, Event.messages_congr (h.feed chunk).2⟩
  | finish => exact h.finish

@[simp] theorem run_cons (a : Assembler) (call : Call) (calls : List Call) :
    a.run (call :: calls) =
      (((a.perform call).1.run calls).1,
        (a.perform call).2 ++ ((a.perform call).1.run calls).2) :=
  rfl

theorem Twins.run {a b : Assembler} (h : Twins a b) (calls : List Call) :
    Twins (a.run calls).1 (b.run calls).1 ∧
      Event.messages (a.run calls).2 = Event.messages (b.run calls).2 := by
  induction calls generalizing a b with
  | nil => exact ⟨h, rfl⟩
  | cons call calls ih =>
      rcases h.perform call with ⟨hcall, hevents⟩
      rcases ih hcall with ⟨hcalls, hmore⟩
      refine ⟨hcalls, ?_⟩
      simp only [run_cons, Event.messages_append, hevents, hmore]

/-! ## A lenient and a strict assembler

They differ in one error, which is fired when the remainder is no response.
-/

def strictly (a : Assembler) : Assembler :=
  { a with settings := { a.settings with finishMode := .strict } }

theorem record_strictly (a : Assembler) (event : Event) :
    a.strictly.record event = (a.record event).strictly := by
  cases event <;> rfl

theorem foldl_record_strictly (a : Assembler) (events : List Event) :
    events.foldl record a.strictly = (events.foldl record a).strictly := by
  induction events generalizing a with
  | nil => rfl
  | cons event events ih => rw [List.foldl_cons, List.foldl_cons, record_strictly, ih]

theorem eventOf_strictly (a : Assembler) (signal : Signal) :
    a.strictly.eventOf signal = a.eventOf signal := by
  cases signal <;> rfl

theorem react_strictly (a : Assembler) (signals : List Signal) :
    a.strictly.react signals = ((a.react signals).1.strictly, (a.react signals).2) := by
  induction signals generalizing a with
  | nil => rfl
  | cons signal signals ih =>
      rw [react, react, eventOf_strictly, record_strictly, ih]

theorem feed_strictly (a : Assembler) (chunk : Bytes) :
    a.strictly.feed chunk = ((a.feed chunk).1.strictly, (a.feed chunk).2) := by
  have hover : a.strictly.isOver = a.isOver := rfl
  unfold feed
  rw [hover]
  split
  · rfl
  · exact react_strictly { a with scanner := (a.scanner.feed chunk).1 } (a.scanner.feed chunk).2

theorem complete_strictly (a : Assembler) :
    a.strictly.complete = (a.complete.1.strictly, a.complete.2) := by
  have hcomplete : a.strictly.isComplete = a.isComplete := rfl
  unfold complete
  rw [hcomplete]
  split <;> rfl

structure RecoveryFails (a : Assembler) (text : List Char) (e : ParseError) : Prop where
  isOver : a.isOver = false
  held : Text.trim (Text.decodeLossy a.scanner.place.held) = text
  ne_nil : text ≠ []
  failed : Response.ofChars text = .error e

theorem recovered_of_fails {a : Assembler} {text : List Char} {e : ParseError}
    (h : a.RecoveryFails text e) : a.recovered = a.complaint text e := by
  have hopen : a.scanner.place.isClosed = false := (Bool.or_eq_false_iff.1 h.isOver).1
  have hsome : text.isEmpty = false := by
    rw [List.isEmpty_eq_false_iff]
    exact h.ne_nil
  rw [recovered, hopen, recovery_eq, h.held]
  simp [hsome, h.failed]

theorem recovered_strictly {a : Assembler} (hfinished : a.isFinished = false)
    (hnot : forall text e, ¬ a.RecoveryFails text e) : a.strictly.recovered = a.recovered := by
  have hplace : a.strictly.scanner.place = a.scanner.place := rfl
  rw [recovered, recovered, recovery_eq, recovery_eq, hplace]
  dsimp only
  split
  · rfl
  · next hopen =>
      split
      · rfl
      · next hsome =>
          split
          · rfl
          · next e hfailed =>
              refine absurd ⟨?_, rfl, ?_, hfailed⟩ (hnot _ e)
              · simp [isOver, hopen, hfinished]
              · simpa using hsome

theorem finish_strictly {a : Assembler} (hnot : forall text e, ¬ a.RecoveryFails text e) :
    a.strictly.finish = (a.finish.1.strictly, a.finish.2) := by
  have hstrict : a.strictly.isFinished = a.isFinished := rfl
  cases hfinished : a.isFinished with
  | true => rw [finish, finish, if_pos hfinished, if_pos (hstrict.trans hfinished)]
  | false =>
      have hended : { a.strictly with isFinished := true } =
          strictly { a with isFinished := true } := rfl
      rw [finish_of_not_isFinished hfinished, finish_of_not_isFinished (hstrict.trans hfinished),
        recovered_strictly hfinished hnot]
      dsimp only
      rw [hended, foldl_record_strictly, complete_strictly]

theorem perform_strictly {a : Assembler} {call : Call}
    (hnot : call = .finish -> forall text e, ¬ a.RecoveryFails text e) :
    a.strictly.perform call = ((a.perform call).1.strictly, (a.perform call).2) := by
  cases call with
  | feed chunk => exact feed_strictly a chunk
  | finish => exact finish_strictly (hnot rfl)

/-- The end of a stream whose remainder is no response. -/
theorem finish_of_fails {a : Assembler} {text : List Char} {e : ParseError}
    (h : a.RecoveryFails text e) (hopen : a.isComplete = false) :
    a.finish.2 = a.complaint text e ++ [.complete a.messages.length] := by
  have hfinished : a.isFinished = false := (Bool.or_eq_false_iff.1 h.isOver).2
  have hkept := recorded_foldl { a with isFinished := true } (a.complaint text e)
  have hnone : (a.complaint text e).any Event.isComplete = false := by
    rw [← recovered_of_fails h]
    exact not_isComplete_of_recovered a
  have hkept_open :
      ((a.complaint text e).foldl record { a with isFinished := true }).isComplete = false := by
    rw [hkept.isComplete, hnone]
    exact congrArg (· || false) hopen
  have hmessages :
      ((a.complaint text e).foldl record { a with isFinished := true }).messages = a.messages := by
    rw [hkept.messages, messages_complaint]
    exact List.append_nil a.messages
  rw [finish_of_not_isFinished hfinished, recovered_of_fails h]
  dsimp only
  rw [complete, hkept_open, hmessages]
  rfl

theorem settings_perform (a : Assembler) (call : Call) :
    (a.perform call).1.settings = a.settings := by
  cases call with
  | feed chunk =>
      show (a.feed chunk).1.settings = a.settings
      unfold feed
      split
      · rfl
      · exact react_settings _ _
  | finish =>
      show a.finish.1.settings = a.settings
      cases hfinished : a.isFinished with
      | true => rw [finish, if_pos hfinished]
      | false =>
          rw [finish_of_not_isFinished hfinished]
          dsimp only
          rw [settings_complete, (foldl_record_keeps _ _).1]

/-- The list of the calls has a finish after these, and it reads this text in vain. -/
structure FailsAfter (a : Assembler) (calls before : List Call) (text : List Char)
    (e : ParseError) : Prop where
  finish : before ++ [.finish] <+: calls
  fails : (a.run before).1.RecoveryFails text e

theorem failsAfter_cons_iff {a : Assembler} {call other : Call} {calls before : List Call}
    {text : List Char} {e : ParseError} :
    a.FailsAfter (call :: calls) (other :: before) text e ↔
      other = call ∧ (a.perform call).1.FailsAfter calls before text e := by
  constructor
  · intro h
    rcases List.cons_prefix_cons.1 h.finish with ⟨rfl, hfinish⟩
    exact ⟨rfl, hfinish, h.fails⟩
  · intro h
    rcases h with ⟨rfl, hfails⟩
    exact ⟨List.cons_prefix_cons.2 ⟨rfl, hfails.finish⟩, hfails.fails⟩

theorem not_failsAfter_cons {a : Assembler} {call : Call} {calls : List Call}
    (hnot : call = .finish -> forall text e, ¬ a.RecoveryFails text e)
    (hrest : forall before text e, ¬ (a.perform call).1.FailsAfter calls before text e) :
    forall before text e, ¬ a.FailsAfter (call :: calls) before text e := by
  intro before text e h
  cases before with
  | nil => exact hnot (List.cons_prefix_cons.1 h.finish).1.symm text e h.fails
  | cons other before => exact hrest before text e (failsAfter_cons_iff.1 h).2

theorem run_strictly {a : Assembler} (h : a.isComplete = a.isOver)
    (hlenient : a.settings.finishMode = .lenient) (calls : List Call) :
    (a.strictly.run calls = ((a.run calls).1.strictly, (a.run calls).2) ∧
        forall before text e, ¬ a.FailsAfter calls before text e) ∨
      exists before text e, a.FailsAfter calls before text e ∧
        let count := (a.run before).1.messages.length
        (a.run calls).2 = (a.run before).2 ++ [.complete count] ∧
          (a.strictly.run calls).2 = (a.run before).2 ++
            [.error (.recovery (previewOf a.settings text) e), .complete count] := by
  induction calls generalizing a with
  | nil =>
      refine .inl ⟨rfl, ?_⟩
      intro before text e hfails
      simpa using hfails.finish
  | cons call calls ih =>
      have hafter := (course_perform h call).2
      -- after a finish that fails nothing is fired any more, so it is the only one that can
      by_cases hfails : call = .finish ∧ exists text e, a.RecoveryFails text e
      · rcases hfails with ⟨rfl, text, e, hfails⟩
        have hopen : a.isComplete = false := h.trans hfails.isOver
        have hstrict : a.strictly.RecoveryFails text e :=
          ⟨hfails.isOver, hfails.held, hfails.ne_nil, hfails.failed⟩
        have hsilent : forall b : Assembler, b.isComplete = b.isOver ->
            (b.finish.1.run calls).2 = [] := by
          intro b hb
          rcases finish_isOver b hb with ⟨hcomplete, hover⟩
          exact (course_run (hcomplete.trans hover.symm) calls).1.silent hcomplete
        refine .inr ⟨[], text, e, ⟨by simp, hfails⟩, ?_, ?_⟩
        · show a.finish.2 ++ (a.finish.1.run calls).2 = _
          rw [hsilent a h, finish_of_fails hfails hopen, complaint, hlenient]
          rfl
        · show a.strictly.finish.2 ++ (a.strictly.finish.1.run calls).2 = _
          rw [hsilent a.strictly h, finish_of_fails hstrict hopen]
          rfl
      · have hnot : call = .finish -> forall text e, ¬ a.RecoveryFails text e :=
          fun hcall text e hreads => hfails ⟨hcall, text, e, hreads⟩
        have hperform := perform_strictly hnot
        have hsettings := settings_perform a call
        rcases ih hafter (by rw [hsettings, hlenient]) with
          ⟨hrest, hnone⟩ | ⟨before, text, e, hlater, hevents, hmore⟩
        · refine .inl ⟨?_, not_failsAfter_cons hnot hnone⟩
          rw [run_cons, run_cons, hperform, hrest]
        · refine .inr ⟨call :: before, text, e, failsAfter_cons_iff.2 ⟨rfl, hlater⟩, ?_, ?_⟩
          · rw [run_cons, run_cons, hevents]
            exact (List.append_assoc _ _ _).symm
          · rw [run_cons, run_cons, hperform, hmore, hsettings]
            exact (List.append_assoc _ _ _).symm

/-! ## A lenient assembler does not complain -/

theorem isRecovery_readObject (settings : Settings) (text : Bytes) :
    (readObject settings text).isRecovery = false := by
  unfold readObject
  split
  · rfl
  · split <;> rfl

theorem isRecovery_of_mem_react {a : Assembler} {signals : List Signal} {event : Event}
    (h : event ∈ (a.react signals).2) : event.isRecovery = false := by
  induction signals generalizing a with
  | nil => cases h
  | cons signal signals ih =>
      rcases List.mem_cons.1 h with rfl | hrest
      · cases signal with
        | object text => exact isRecovery_readObject a.settings text
        | closed => rfl
      · exact ih hrest

theorem isRecovery_of_mem_recovered {a : Assembler} (hlenient : a.settings.finishMode = .lenient)
    {event : Event} (h : event ∈ a.recovered) : event.isRecovery = false := by
  rw [recovered, recovery_eq] at h
  dsimp only at h
  split at h
  · cases h
  · split at h
    · cases h
    · split at h
      · rcases List.mem_map.1 h with ⟨m, _, rfl⟩
        rfl
      · rw [complaint, hlenient] at h
        cases h

theorem isRecovery_of_mem_perform {a : Assembler} (hlenient : a.settings.finishMode = .lenient)
    {call : Call} {event : Event} (h : event ∈ (a.perform call).2) :
    event.isRecovery = false := by
  cases call with
  | feed chunk =>
      rw [perform, feed] at h
      split at h
      · cases h
      · exact isRecovery_of_mem_react h
  | finish =>
      rw [perform] at h
      cases hfinished : a.isFinished with
      | true =>
          rw [finish, if_pos hfinished] at h
          cases h
      | false =>
          rw [finish_of_not_isFinished hfinished] at h
          rcases List.mem_append.1 h with hrecovered | hcompleted
          · exact isRecovery_of_mem_recovered hlenient hrecovered
          · unfold complete at hcompleted
            split at hcompleted
            · cases hcompleted
            · rw [List.mem_singleton.1 hcompleted]
              rfl

theorem isRecovery_of_mem_run {a : Assembler} (hlenient : a.settings.finishMode = .lenient)
    {calls : List Call} {event : Event} (h : event ∈ (a.run calls).2) :
    event.isRecovery = false := by
  induction calls generalizing a with
  | nil => cases h
  | cons call calls ih =>
      rw [run_cons] at h
      rcases List.mem_append.1 h with hcall | hcalls
      · exact isRecovery_of_mem_perform hlenient hcall
      · exact ih ((congrArg _ (settings_perform a call)).trans hlenient) hcalls

/-! ## What the settings decide -/

/--
Two assemblers that get the same calls deliver the same messages, say the same of each chunk,
and fire the same events for it but for what their errors quote.  A strict one fires what a
lenient one does, and one error more if finishing finds no response in the remainder.
-/
theorem run_settings (calls : List Call) :
    (forall s t : Settings,
      let a := (start s).run calls
      let b := (start t).run calls
      Event.messages a.2 = Event.messages b.2 ∧ a.1.messages = b.1.messages ∧
        forall chunk, a.1.completedBy chunk = b.1.completedBy chunk ∧
          (a.1.feed chunk).2.map Event.withoutPreview =
            (b.1.feed chunk).2.map Event.withoutPreview) ∧
    forall previewChars : Nat,
      let lenient := start ⟨.lenient, previewChars⟩
      let a := lenient.run calls
      let b := (start ⟨.strict, previewChars⟩).run calls
      (forall preview e, .error (.recovery preview e) ∉ a.2) ∧
      ((b.2 = a.2 ∧ b.1.errorCount = a.1.errorCount ∧
          forall before text e, ¬ lenient.FailsAfter calls before text e) ∨
        exists before text e, lenient.FailsAfter calls before text e ∧
          let count := (lenient.run before).1.messages.length
          a.2 = (lenient.run before).2 ++ [.complete count] ∧
            b.2 = (lenient.run before).2 ++
              [.error (.recovery (previewOf lenient.settings text) e), .complete count] ∧
            b.1.errorCount = a.1.errorCount + 1) := by
  refine ⟨?_, ?_⟩
  · intro s t a b
    have hstart : Twins (start s) (start t) := ⟨rfl, rfl, rfl, rfl⟩
    rcases hstart.run calls with ⟨htwins, hmessages⟩
    refine ⟨hmessages, htwins.messages, ?_⟩
    intro chunk
    exact ⟨htwins.completedBy chunk, (htwins.feed chunk).2⟩
  · intro previewChars lenient a b
    have hlenient : lenient.isComplete = lenient.isOver := rfl
    have hstrict : lenient.strictly.isComplete = lenient.strictly.isOver := rfl
    have hcount : a.1.errorCount = a.2.countP Event.isError :=
      (course_run hlenient calls).1.errorCount.trans (Nat.zero_add _)
    have hstrictCount : b.1.errorCount = b.2.countP Event.isError :=
      (course_run hstrict calls).1.errorCount.trans (Nat.zero_add _)
    refine ⟨?_, ?_⟩
    · intro preview e hmem
      cases isRecovery_of_mem_run (a := lenient) rfl hmem
    · rcases run_strictly hlenient rfl calls with
        ⟨hrun, hnot⟩ | ⟨before, text, e, hfails, hevents, hmore⟩
      · have hsame : b.2 = a.2 := by
          show (lenient.strictly.run calls).2 = a.2
          rw [hrun]
        exact .inl ⟨hsame, by rw [hcount, hstrictCount, hsame], hnot⟩
      · have ha : a.2 = _ := hevents
        have hb : b.2 = _ := hmore
        refine .inr ⟨before, text, e, hfails, hevents, hmore, ?_⟩
        rw [hcount, hstrictCount, ha, hb, List.countP_append, List.countP_append]
        rfl

/-- An object that is open when the response ends, and of which one character is quoted. -/
example : exists e,
    ((start ⟨.strict, 1⟩).run [.feed [0x5b, 0x7b, 0x22], .finish, .finish]).2 =
      [.error (.recovery "\x7b..." e), .complete 0] :=
  ⟨_, rfl⟩

end Assembler
end SurfaceFeed
