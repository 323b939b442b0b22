import SurfaceFeed.Proofs.Remainder

/-!
# Where the chunks of a response end

## What is held at the end

What finishing does hangs on the bytes that are still held, and of these only
the bytes outside lists hang on where the chunks ended.  They are what follows
the last opening bracket, except that a chunk that ended in a list without
objects has taken the list up to there with it, its bracket included.
-/

namespace SurfaceFeed

namespace Place

def isFreshList : Place -> Bool
  | list _ false => true
  | _ => false

theorem Alike.isFreshList_eq {p q : Place} (h : Alike p q) : p.isFreshList = q.isFreshList := by
  cases h with
  | outside => rfl
  | @list _ _ anyObject => cases anyObject <;> rfl
  | object => rfl
  | closed => rfl

end Place

namespace Scanner

def endsInFreshList (text : Bytes) : Bool :=
  (start.scan text).1.place.isFreshList

def EndsOutside (text : Bytes) : Prop :=
  exists held, (start.scan text).1.place = .outside held

/-- A text from its last opening bracket on, and all of it if there is none. -/
def fromLastOpening (text : Bytes) : Bytes :=
  if 0x5b ∈ text then 0x5b :: (text.reverse.takeWhile (· != 0x5b)).reverse else text

/--
The bytes since the last chunk that ended in a list without objects, after the bytes `fed`
of which `kept` are such.
-/
def since (fed kept : Bytes) : List Bytes -> Bytes
  | [] => kept
  | chunk :: chunks =>
      since (fed ++ chunk) (if endsInFreshList (fed ++ chunk) then [] else kept ++ chunk) chunks

/-- What is held of some chunks that end outside lists. -/
def remainder (chunks : List Bytes) : Bytes :=
  fromLastOpening (since [] [] chunks)

/-- No chunk ends, after the last opening bracket, in a list without objects. -/
def SparesLast (chunks : List Bytes) : Prop :=
  forall before after, chunks = before ++ after -> endsInFreshList before.flatten = true ->
    0x5b ∈ after.flatten

/-! ## The last opening bracket -/

theorem fromLastOpening_concat (text : Bytes) (b : UInt8) :
    fromLastOpening (text ++ [b]) =
      if b = 0x5b then [0x5b] else fromLastOpening text ++ [b] := by
  by_cases hb : b = 0x5b
  · subst hb
    simp [fromLastOpening]
  · by_cases hmem : 0x5b ∈ text
    · simp [fromLastOpening, hb, hmem]
    · simp [fromLastOpening, hb, hmem, Ne.symm hb]

theorem fromLastOpening_append (a : Bytes) {b : Bytes} (h : 0x5b ∈ b) :
    fromLastOpening (a ++ b) = fromLastOpening b := by
  have hstop : ¬ (b.reverse.takeWhile (· != 0x5b)).length = b.reverse.length := by
    intro hlength
    have hall := List.takeWhile_prefix (· != 0x5b) |>.eq_of_length hlength
    have hmem : 0x5b ∈ b.reverse.takeWhile (· != 0x5b) := by
      rw [hall]
      exact List.mem_reverse.2 h
    exact absurd (List.all_eq_true.1 List.all_takeWhile _ hmem) (by decide)
  rw [fromLastOpening, fromLastOpening, if_pos (List.mem_append_right a h), if_pos h,
    List.reverse_append, List.takeWhile_append, if_neg hstop]

/-- The last bracket stays if no chunk ends after it in a list without objects. -/
theorem fromLastOpening_since {fed kept : Bytes} {chunks : List Bytes}
    (h : forall before after, chunks = before ++ after ->
      endsInFreshList (fed ++ before.flatten) = true -> before ≠ [] -> 0x5b ∈ after.flatten) :
    fromLastOpening (since fed kept chunks) = fromLastOpening (kept ++ chunks.flatten) := by
  induction chunks generalizing fed kept with
  | nil => rw [since, List.flatten_nil, List.append_nil]
  | cons chunk chunks ih =>
      have hrest : forall before after, chunks = before ++ after ->
          endsInFreshList ((fed ++ chunk) ++ before.flatten) = true -> before ≠ [] ->
          0x5b ∈ after.flatten := by
        rintro before after rfl hends _
        refine h (chunk :: before) after rfl ?_ (List.cons_ne_nil chunk before)
        rw [List.flatten_cons, ← List.append_assoc]
        exact hends
      rw [since, ih hrest, List.flatten_cons, ← List.append_assoc]
      cases hends : endsInFreshList (fed ++ chunk) with
      | false => rfl
      | true =>
          have hopen := h [chunk] chunks rfl (by simpa using hends) (List.cons_ne_nil chunk [])
          rw [if_pos rfl, fromLastOpening_append _ hopen, fromLastOpening_append _ hopen]

theorem remainder_of_sparesLast {chunks : List Bytes} (h : SparesLast chunks) :
    remainder chunks = fromLastOpening chunks.flatten :=
  fromLastOpening_since fun before after happend hends _ => h before after happend hends

end Scanner

/-! ## What is held -/

namespace Place

theorem Fresh.held_hold {p : Place} (h : p.Fresh) (b : UInt8) :
    (p.hold b).held = if b = 0x5b then [0x5b] else p.held ++ [b] := by
  have hheld : forall held : Bytes, (if b == 0x5b then [b] else b :: held).reverse =
      if b = 0x5b then [0x5b] else held.reverse ++ [b] := by
    intro held
    by_cases hb : b = 0x5b
    · subst hb
      rfl
    · simp [hb]
  cases h with
  | @outside held => exact hheld held
  | @list held => exact hheld held

theorem Fresh.held_turn {p : Place} {b : UInt8} (h : (p.turn b).1.Fresh) :
    (p.turn b).1.held = p.held := by
  have hfresh := h.of_turn.1
  cases hfresh with
  | outside =>
      dsimp only [Place.turn]
      cases b == 0x5b <;> rfl
  | list =>
      simp only [Place.turn] at h ⊢
      repeat' split
      · next htrue => cases htrue
      · rfl
      · next hclose hopen =>
          rw [if_neg hclose, if_pos hopen] at h
          cases h
      · rfl

theorem Fresh.held_settle {p : Place} (h : p.Fresh) :
    p.settle.held = if p.isFreshList then [] else p.held := by
  cases h with
  | outside => rfl
  | list => rfl

theorem Alike.eq_of_settle {p q : Place} (h : Alike p q) (hp : p.settle = p)
    (hq : q.settle = q) : p = q ∨ exists held, q = Place.outside held := by
  cases h with
  | outside => exact .inr ⟨_, rfl⟩
  | @list _ _ anyObject =>
      left
      rw [← hp, ← hq]
      rfl
  | object => exact .inl rfl
  | closed => exact .inl rfl

theorem Fresh.of_settle {p : Place} (h : p.settle.Fresh) : p.Fresh :=
  (alike_settle p).symm.fresh h

end Place

namespace Scanner

/-- While no object has opened, the bytes from the last opening bracket on are held. -/
theorem held_step {kept : Bytes} {s : Scanner}
    (h : s.place.Fresh -> s.place.held = fromLastOpening kept) (b : UInt8)
    (hfresh : (s.step b).1.place.Fresh) :
    (s.step b).1.place.held = fromLastOpening (kept ++ [b]) := by
  have hheld : (s.place.hold b).Fresh ->
      (s.place.hold b).held = fromLastOpening (kept ++ [b]) := by
    intro hold
    rw [hold.of_hold.held_hold, h hold.of_hold, fromLastOpening_concat]
  rcases s with ⟨lexical, place⟩
  cases lexical with
  | plain =>
      have hturn := Place.Fresh.held_turn hfresh
      exact hturn.trans (hheld hfresh.of_turn.1)
  | quoted => exact hheld hfresh
  | escaped => exact hheld hfresh

theorem held_scan {kept : Bytes} {s : Scanner}
    (h : s.place.Fresh -> s.place.held = fromLastOpening kept) (text : Bytes)
    (hfresh : (s.scan text).1.place.Fresh) :
    (s.scan text).1.place.held = fromLastOpening (kept ++ text) := by
  induction text generalizing s kept with
  | nil =>
      rw [List.append_nil]
      exact h hfresh
  | cons b text ih =>
      have hrest := ih (fun _ => held_step h b ‹_›) hfresh
      rw [List.append_assoc] at hrest
      exact hrest

end Scanner

def Event.isComplete : Event -> Bool
  | complete _ => true
  | _ => false

namespace Assembler

theorem isFinished_feed (a : Assembler) (chunk : Bytes) :
    (a.feed chunk).1.isFinished = a.isFinished := by
  cases hover : a.isOver with
  | true => rw [feed_of_isOver hover]
  | false =>
      rw [feed_of_not_isOver hover]
      exact react_isFinished a _

theorem alike_feed {a : Assembler} (hfinished : a.isFinished = false) (chunk : Bytes) :
    (a.feed chunk).1.scanner.Alike (a.scanner.scan chunk).1 := by
  cases hover : a.isOver with
  | true =>
      rw [isOver, hfinished, Bool.or_false] at hover
      have hplace := Place.eq_closed_of_isClosed hover
      rw [feed_of_isOver (by simp [isOver, hover])]
      refine ⟨?_, fun hopen => Bool.noConfusion (hover.symm.trans hopen)⟩
      rw [hplace, (Scanner.scan_closed hplace chunk).1]
      exact .closed
  | false =>
      rw [feed_of_not_isOver hover]
      exact Scanner.alike_settle _

theorem held_feedAll {a : Assembler} (hfinished : a.isFinished = false) {fed kept : Bytes}
    (halike : a.scanner.Alike (Scanner.start.scan fed).1)
    (h : a.scanner.place.Fresh -> a.scanner.place.held = Scanner.fromLastOpening kept)
    (chunks : List Bytes) (hfresh : (a.feedAll chunks).1.scanner.place.Fresh) :
    (a.feedAll chunks).1.scanner.place.held =
      Scanner.fromLastOpening (Scanner.since fed kept chunks) := by
  induction chunks generalizing a fed kept with
  | nil => exact h hfresh
  | cons chunk chunks ih =>
      have hwhole : (a.scanner.scan chunk).1.Alike (Scanner.start.scan (fed ++ chunk)).1 := by
        rw [Scanner.scan_append]
        exact (halike.scan chunk).1
      refine ih ((isFinished_feed a chunk).trans hfinished)
        ((alike_feed hfinished chunk).trans hwhole) ?_ hfresh
      intro hfed
      rw [place_feed] at hfed ⊢
      split
      · next hover =>
          -- the list has ended, and no chunk leads back from there
          have hclosed : a.scanner.place = .closed :=
            Place.eq_closed_of_isClosed (by simpa [isOver, hfinished] using hover)
          rw [if_pos hover, hclosed] at hfed
          cases hfed
      · next hover =>
          rw [if_neg hover] at hfed
          have hends : (a.scanner.scan chunk).1.place.isFreshList =
              Scanner.endsInFreshList (fed ++ chunk) := hwhole.place.isFreshList_eq
          rw [hfed.of_settle.held_settle, Scanner.held_scan h chunk hfed.of_settle, hends]
          cases Scanner.endsInFreshList (fed ++ chunk) <;> rfl

/-! ## What finishing does with it -/

theorem Alike.symm {a b : Assembler} (h : a.Alike b) : b.Alike a := by
  refine ⟨h.scanner.symm, ?_⟩
  rw [← h.others]

theorem Alike.record {a b : Assembler} (h : a.Alike b) (event : Event) :
    (a.record event).Alike (b.record event) := by
  rw [← h.others]
  cases event <;> exact ⟨h.scanner, rfl⟩

theorem Alike.foldl_record {a b : Assembler} (h : a.Alike b) (events : List Event) :
    (events.foldl Assembler.record a).Alike (events.foldl Assembler.record b) := by
  induction events generalizing a b with
  | nil => exact h
  | cons event events ih => exact ih (h.record event)

theorem Alike.complete {a b : Assembler} (h : a.Alike b) :
    a.complete.1.Alike b.complete.1 ∧ a.complete.2 = b.complete.2 := by
  rw [Assembler.complete, Assembler.complete, h.isComplete_eq, h.messages_eq]
  split
  · exact ⟨h, rfl⟩
  · exact ⟨h.record (.complete b.messages.length), rfl⟩

def recovered (a : Assembler) : List Event :=
  if a.scanner.place.isClosed then [] else a.recovery

theorem recovered_congr {a b : Assembler} (h : a.Alike b)
    (hplace : a.scanner.place = b.scanner.place) : a.recovered = b.recovered := by
  rw [recovered, recovered, recovery, recovery, hplace, h.messages_eq, h.settings_eq]

theorem finish_of_not_isFinished {a : Assembler} (h : a.isFinished = false) :
    let kept := a.recovered.foldl record { a with isFinished := true }
    a.finish = (kept.complete.1, a.recovered ++ kept.complete.2) := by
  rw [finish, if_neg (by simp [h])]
  rfl

structure SameFinish (a b : Assembler) : Prop where
  events : a.finish.2 = b.finish.2
  messages : a.finish.1.messages = b.finish.1.messages
  errorCount : a.finish.1.errorCount = b.finish.1.errorCount
  isComplete : a.finish.1.isComplete = b.finish.1.isComplete

theorem sameFinish_of_recovered {a b : Assembler} (h : a.Alike b)
    (hfinished : a.isFinished = false) (hrecovered : a.recovered = b.recovered) :
    SameFinish a b := by
  have hstart : Alike { a with isFinished := true } { b with isFinished := true } :=
    ⟨h.scanner, congrArg (fun c : Assembler => { c with isFinished := true }) h.others⟩
  have hcomplete := (hstart.foldl_record a.recovered).complete
  have ha := finish_of_not_isFinished hfinished
  have hb := finish_of_not_isFinished (h.isFinished_eq.symm.trans hfinished)
  rw [← hrecovered] at hb
  refine ⟨?_, ?_, ?_, ?_⟩
  · rw [ha, hb, hcomplete.2]
  · rw [ha, hb]
    exact hcomplete.1.messages_eq
  · rw [ha, hb]
    exact hcomplete.1.errorCount_eq
  · rw [ha, hb]
    exact hcomplete.1.isComplete_eq

theorem isComplete_of_mem_recovered {a : Assembler} {event : Event} (h : event ∈ a.recovered) :
    event.isComplete = false := by
  rw [recovered] at h
  split at h
  · cases h
  · rw [recovery] at h
    repeat' split at h
    · cases h
    · rcases List.mem_map.1 h with ⟨m, _, rfl⟩
      rfl
    · cases h
    · rw [List.mem_singleton.1 h]
      rfl

theorem recovered_eq_filter {a : Assembler} (h : a.isFinished = false) :
    a.recovered = a.finish.2.filter (fun event => !event.isComplete) := by
  have hrecovered : a.recovered.filter (fun event => !event.isComplete) = a.recovered := by
    rw [List.filter_eq_self]
    intro event hevent
    rw [isComplete_of_mem_recovered hevent]
    rfl
  have hcomplete : forall b : Assembler,
      b.complete.2.filter (fun event => !event.isComplete) = [] := by
    intro b
    rw [complete]
    split <;> rfl
  rw [finish_of_not_isFinished h, List.filter_append, hrecovered, hcomplete, List.append_nil]

theorem sameFinish_iff {a b : Assembler} (h : a.Alike b) (hfinished : a.isFinished = false) :
    SameFinish a b ↔ a.recovered = b.recovered := by
  refine ⟨fun hsame => ?_, sameFinish_of_recovered h hfinished⟩
  rw [recovered_eq_filter hfinished, recovered_eq_filter (h.isFinished_eq.symm.trans hfinished),
    hsame.events]

/-! ## Finishing two chunkings of a text -/

theorem alike_of_flatten_eq (settings : Settings) {xs ys : List Bytes}
    (h : xs.flatten = ys.flatten) :
    ((start settings).feedAll xs).1.Alike ((start settings).feedAll ys).1 := by
  have hys := (feedAll_alike_feed (start settings) ys).1
  rw [← h] at hys
  exact (feedAll_alike_feed (start settings) xs).1.trans hys.symm

/-- What finishing recovers from a text outside lists. -/
def afterthought (settings : Settings) (text : Bytes) : List Event :=
  recovery { start settings with scanner := ⟨.plain, .outside text.reverse⟩ }

theorem feedAll_of_endsOutside (settings : Settings) {chunks : List Bytes}
    (h : Scanner.EndsOutside chunks.flatten) :
    (Scanner.start.scan chunks.flatten).2 = [] ∧
      ((start settings).feedAll chunks).1.scanner.place.isClosed = false ∧
      ((start settings).feedAll chunks).1.scanner.place.held = Scanner.remainder chunks := by
  rcases h with ⟨held, hplace⟩
  have hfresh : (Scanner.start.scan chunks.flatten).1.place.Fresh := by
    rw [hplace]
    exact .outside
  have hscanner := (feedAll_start settings chunks).1.scanner.place
  rw [hplace] at hscanner
  refine ⟨(Scanner.fresh_of_scan hfresh).2, hscanner.isClosed_eq, ?_⟩
  exact held_feedAll rfl (Scanner.Alike.refl Scanner.start) (fun _ => rfl) chunks
    (hscanner.fresh .outside)

/-- Outside lists finishing recovers what the remainder of the chunks has. -/
theorem recovered_of_endsOutside (settings : Settings) {chunks : List Bytes}
    (h : Scanner.EndsOutside chunks.flatten) :
    ((start settings).feedAll chunks).1.recovered =
      afterthought settings (Scanner.remainder chunks) := by
  have halike := (feedAll_start settings chunks).1
  rcases feedAll_of_endsOutside settings h with ⟨hsignals, hopen, hheld⟩
  rw [hsignals] at halike
  rw [recovered, hopen, if_neg (by decide), afterthought, recovery, recovery, hheld,
    halike.messages_eq, halike.settings_eq]
  simp [react, start, Place.held]

theorem recovered_of_not_endsOutside (settings : Settings) {xs ys : List Bytes}
    (h : xs.flatten = ys.flatten) (houtside : ¬ Scanner.EndsOutside ys.flatten) :
    ((start settings).feedAll xs).1.recovered = ((start settings).feedAll ys).1.recovered := by
  have halike := alike_of_flatten_eq settings h
  rcases halike.scanner.place.eq_of_settle (settle_start settings xs) (settle_start settings ys)
    with hplace | ⟨held, hplace⟩
  · exact recovered_congr halike hplace
  · have hend := (feedAll_start settings ys).1.scanner.place.symm
    rw [hplace] at hend
    exact absurd hend.exists_outside houtside

/--
Finishing does not depend on where the chunks of a text ended, except outside lists on what
the chunks that ended in a list without objects took with them.  If none of them ended in the
last such list, it does not depend on them.
-/
theorem finish_agrees_iff (settings : Settings) {xs ys : List Bytes}
    (h : xs.flatten = ys.flatten) :
    (SameFinish ((start settings).feedAll xs).1 ((start settings).feedAll ys).1 ↔
      (Scanner.EndsOutside xs.flatten ->
        afterthought settings (Scanner.remainder xs) =
          afterthought settings (Scanner.remainder ys))) ∧
    (Scanner.SparesLast xs -> Scanner.SparesLast ys ->
      SameFinish ((start settings).feedAll xs).1 ((start settings).feedAll ys).1) := by
  have halike := alike_of_flatten_eq settings h
  have hfinished : ((start settings).feedAll xs).1.isFinished = false :=
    (feedAll_start settings xs).1.isFinished_eq.trans (react_isFinished (start settings) _)
  have hagree : SameFinish ((start settings).feedAll xs).1 ((start settings).feedAll ys).1 ↔
      (Scanner.EndsOutside xs.flatten ->
        afterthought settings (Scanner.remainder xs) =
          afterthought settings (Scanner.remainder ys)) := by
    rw [sameFinish_iff halike hfinished]
    by_cases houtside : Scanner.EndsOutside xs.flatten
    · rw [recovered_of_endsOutside settings houtside, recovered_of_endsOutside settings
        (h ▸ houtside)]
      exact ⟨fun hsame _ => hsame, fun hsame => hsame houtside⟩
    · have hsame := recovered_of_not_endsOutside settings h (h ▸ houtside)
      exact ⟨fun _ hends => absurd hends houtside, fun _ => hsame⟩
  refine ⟨hagree, fun hxs hys => hagree.2 fun _ => ?_⟩
  rw [Scanner.remainder_of_sparesLast hxs, Scanner.remainder_of_sparesLast hys, h]

theorem finish_agrees_on_brackets :
    SameFinish ((start .standard).feedAll [[0x5b, 0x5d]]).1
      ((start .standard).feedAll [[0x5b], [0x5d]]).1 := by
  have htext : [[(0x5b : UInt8), 0x5d]].flatten = [[0x5b], [0x5d]].flatten := rfl
  have hnothing : afterthought .standard (Scanner.remainder [[0x5b, 0x5d]]) =
      afterthought .standard (Scanner.remainder [[0x5b], [0x5d]]) := rfl
  exact (finish_agrees_iff .standard htext).1.2 fun _ => hnothing

/-- The beginning of a list of a string that has a fence in it. -/
def halfFence : Bytes :=
  [0x5b, 0x22, 0x60, 0x60]

/-- The other half of the fence, and a request for rendering in it. -/
def fencedRequest : Bytes :=
  [0x60, 0x7b, 0x22, 0x74, 0x79, 0x70, 0x65, 0x22, 0x3a, 0x22, 0x62, 0x65, 0x67, 0x69, 0x6e,
    0x52, 0x65, 0x6e, 0x64, 0x65, 0x72, 0x69, 0x6e, 0x67, 0x22, 0x7d, 0x60, 0x60, 0x60, 0x22,
    0x5d]

theorem recovered_fencedRequest :
    Response.recovered (Text.trim (Text.decodeLossy (halfFence ++ fencedRequest))) =
      [.beginRendering none] := by
  have hfenced : (Response.fenced?
      (Text.trim (Text.decodeLossy (halfFence ++ fencedRequest)))).map Text.encode =
      some ((fencedRequest.drop 1).take 25) := by
    decide +kernel
  rw [Response.recovered, Response.ofChars_of_fenced (Response.document?_of_encode hfenced)]
  rfl

theorem recovered_cutFence :
    Response.recovered (Text.trim (Text.decodeLossy fencedRequest)) = [] := by
  have hfenced : (Response.fenced? (Text.trim (Text.decodeLossy fencedRequest))).map Text.encode =
      some [0x22, 0x5d] := by
    decide +kernel
  have hbracketed : Response.bracketed? (Text.trim (Text.decodeLossy fencedRequest)) = none := by
    decide +kernel
  have hwhole : Text.encode (Text.trim (Text.trim (Text.decodeLossy fencedRequest))) =
      fencedRequest := by
    decide +kernel
  rw [Response.recovered, Response.ofChars_of_whole (Response.document?_of_encode hfenced)
    (by rw [hbracketed]; rfl), Response.ofWhole, hwhole]
  rfl

/--
A chunk that ends in a list without objects takes its bracket with it, and the list is none
any more; or it takes the beginning of a fence, and the message behind it is lost.
-/
theorem finish_depends_on_chunks :
    let brackets := (start ⟨.strict, 100⟩).feedAll [[0x5b, 0x5d]]
    let cutBrackets := (start ⟨.strict, 100⟩).feedAll [[0x5b], [0x5d]]
    let fence := (start .standard).feedAll [halfFence ++ fencedRequest]
    let cutFence := (start .standard).feedAll [halfFence, fencedRequest]
    (brackets.1.finish.1.errorCount = 0 ∧ cutBrackets.1.finish.1.errorCount = 1) ∧
      fence.1.finish.1.messages = [.beginRendering none] ∧
      cutFence.1.finish.1.messages = [] ∧
      ¬ SameFinish brackets.1 cutBrackets.1 ∧ ¬ SameFinish fence.1 cutFence.1 := by
  intro brackets cutBrackets fence cutFence
  have hbrackets : brackets.1.finish.1.errorCount = 0 := by decide +kernel
  have hcutBrackets : cutBrackets.1.finish.1.errorCount = 1 := by decide +kernel
  have hfence : fence.1.finish.1.messages = [.beginRendering none] := by
    rw [(finish_feedAll_of_lenient rfl [halfFence ++ fencedRequest]).1]
    have hplace : fence.1.scanner.place = .outside (halfFence ++ fencedRequest).reverse := by
      decide +kernel
    have hheld : fence.1.scanner.place.held = halfFence ++ fencedRequest := by
      rw [hplace, Place.held, List.reverse_reverse]
    rw [leftover, hheld, recovered_fencedRequest, hplace]
    rfl
  have hcutFence : cutFence.1.finish.1.messages = [] := by
    rw [(finish_feedAll_of_lenient rfl [halfFence, fencedRequest]).1]
    have hplace : cutFence.1.scanner.place = .outside fencedRequest.reverse := by
      decide +kernel
    have hheld : cutFence.1.scanner.place.held = fencedRequest := by
      rw [hplace, Place.held, List.reverse_reverse]
    rw [leftover_eq_nil (by rw [hheld, recovered_cutFence])]
    rfl
  refine ⟨⟨hbrackets, hcutBrackets⟩, hfence, hcutFence, ?_, ?_⟩
  · intro h
    have hcount := h.errorCount
    rw [hbrackets, hcutBrackets] at hcount
    cases hcount
  · intro h
    have hmessages := h.messages
    rw [hfence, hcutFence] at hmessages
    cases hmessages

end Assembler
end SurfaceFeed
