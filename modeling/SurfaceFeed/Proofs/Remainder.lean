import SurfaceFeed.Proofs.Candidates
import SurfaceFeed.Proofs.Chunking
import SurfaceFeed.Proofs.Scanner.Quiet

/-!
# What is left at the end of a response

## The bytes that are held

The bytes that an assembler holds are an end of all that it was fed.  They begin
at the last opening bracket or after it, wherever the chunks ended; only while no
bracket has come at all they are everything.
-/

namespace SurfaceFeed

/-- An end of the bytes that came, with no bracket that opens after its first byte. -/
structure Window (fed window : Bytes) : Prop where
  tail : 0x5b ∉ window.tail
  split : exists u, fed = u ++ window ∧ (u ≠ [] -> 0x5b ∈ fed) ∧
    (0x5b ∈ fed -> 0x5b ∈ u ∨ window.head? = some 0x5b)

namespace Window

theorem of_open (fed : Bytes) : Window (fed ++ [0x5b]) [0x5b] := by
  refine ⟨by decide, fed, rfl, fun _ => ?_, fun _ => .inr rfl⟩
  exact List.mem_append_right fed List.mem_cons_self

theorem of_mem {fed : Bytes} (h : 0x5b ∈ fed) : Window fed [] := by
  refine ⟨by decide, fed, (List.append_nil fed).symm, fun _ => h, fun _ => .inl h⟩

theorem concat {fed window : Bytes} (h : Window fed window) {b : UInt8} (hb : b ≠ 0x5b) :
    Window (fed ++ [b]) (window ++ [b]) := by
  rcases h.split with ⟨u, hfed, hnonempty, hopen⟩
  have hmem : 0x5b ∈ fed ++ [b] ↔ 0x5b ∈ fed := by
    simp [Ne.symm hb]
  refine ⟨?_, u, by rw [hfed, List.append_assoc], ?_, ?_⟩
  · cases window with
    | nil => exact List.not_mem_nil
    | cons x window =>
        intro hmem
        rcases List.mem_append.1 hmem with hmem | hmem
        · exact h.tail hmem
        · exact hb (List.mem_singleton.1 hmem).symm
  · intro hu
    exact hmem.2 (hnonempty hu)
  · intro hin
    rcases hopen (hmem.1 hin) with hu | hhead
    · exact .inl hu
    · refine .inr ?_
      cases window with
      | nil => cases hhead
      | cons x window => exact hhead

end Window

namespace Place

/-- What a place holds of the bytes that came, while no object is open. -/
def Holds (fed : Bytes) : Place -> Prop
  | outside held => Window fed held.reverse
  | list held _ => Window fed held.reverse ∧ 0x5b ∈ fed
  | object _ _ | closed => 0x5b ∈ fed

theorem Alike.exists_outside {p : Place} {held : Bytes} (h : Alike p (.outside held)) :
    exists held', p = .outside held' := by
  cases h with
  | outside => exact ⟨_, rfl⟩

theorem Alike.exists_list {p : Place} {held : Bytes} {anyObject : Bool}
    (h : Alike p (.list held anyObject)) : exists held', p = .list held' anyObject := by
  cases h with
  | list => exact ⟨_, rfl⟩

theorem Alike.eq_object {p : Place} {held : Bytes} {depth : Nat}
    (h : Alike p (.object held depth)) : p = .object held depth := by
  cases h with
  | object => rfl

theorem Alike.fresh {p q : Place} (h : Alike p q) (hq : q.Fresh) : p.Fresh := by
  cases hq with
  | outside =>
      rcases h.exists_outside with ⟨held, rfl⟩
      exact .outside
  | list =>
      rcases h.exists_list with ⟨held, rfl⟩
      exact .list

theorem Holds.settle {fed : Bytes} {p : Place} (h : Holds fed p) : Holds fed p.settle := by
  cases p with
  | list held anyObject => exact ⟨Window.of_mem h.2, h.2⟩
  | outside held => exact h
  | object held depth => exact h
  | closed => exact h

theorem Holds.hold {fed : Bytes} {p : Place} (h : Holds fed p) (b : UInt8) :
    Holds (fed ++ [b]) (p.hold b) := by
  have hwindow : forall held : Bytes, Window fed held.reverse ->
      Window (fed ++ [b]) (if b == 0x5b then [b] else b :: held).reverse := by
    intro held hheld
    by_cases hb : b = 0x5b
    · subst hb
      exact Window.of_open fed
    · rw [if_neg (by simp [hb]), List.reverse_cons]
      exact hheld.concat hb
  cases p with
  | outside held => exact hwindow held h
  | list held anyObject => exact ⟨hwindow held h.1, List.mem_append_left [b] h.2⟩
  | object held depth => exact List.mem_append_left [b] h
  | closed => exact List.mem_append_left [b] h

theorem Holds.turn {fed : Bytes} {p : Place} {b : UInt8} (h : Holds (fed ++ [b]) p) :
    Holds (fed ++ [b]) (p.turn b).1 := by
  cases p with
  | outside held =>
      by_cases hb : b = 0x5b
      · subst hb
        exact ⟨h, List.mem_append_right fed List.mem_cons_self⟩
      · simp only [Place.turn, beq_eq_false_iff_ne.2 hb]
        exact h
  | list held anyObject =>
      simp only [Place.turn]
      repeat' split
      · exact h.2
      · exact h.1
      · exact h.2
      · exact h
  | object held depth =>
      simp only [Place.turn]
      repeat' split
      · exact h
      · exact ⟨Window.of_mem h, h⟩
      · exact h
      · exact h
  | closed => exact h

end Place

namespace Scanner

theorem holds_step {fed : Bytes} {s : Scanner} (h : s.place.Holds fed) (b : UInt8) :
    (s.step b).1.place.Holds (fed ++ [b]) := by
  rcases s with ⟨lexical, place⟩
  have hheld := Place.Holds.hold h b
  cases lexical with
  | plain => exact hheld.turn
  | quoted => exact hheld
  | escaped => exact hheld

theorem holds_scan {fed : Bytes} {s : Scanner} (h : s.place.Holds fed) (text : Bytes) :
    (s.scan text).1.place.Holds (fed ++ text) := by
  induction text generalizing s fed with
  | nil =>
      rw [List.append_nil]
      exact h
  | cons b text ih =>
      have hstep := ih (holds_step h b)
      rw [List.append_assoc] at hstep
      exact hstep

end Scanner

namespace Assembler

theorem place_feed (a : Assembler) (chunk : Bytes) :
    (a.feed chunk).1.scanner.place =
      if a.isOver then a.scanner.place else (a.scanner.scan chunk).1.place.settle := by
  cases h : a.isOver with
  | true =>
      rw [feed_of_isOver h]
      rfl
  | false =>
      rw [feed_of_not_isOver h]
      rfl

/-- What is held after some chunks is a window of all of them, wherever they ended. -/
theorem holds_feedAll {a : Assembler} (hfinished : a.isFinished = false) {fed : Bytes}
    (h : a.scanner.place.Holds fed) (chunks : List Bytes) :
    (a.feedAll chunks).1.scanner.place.Holds (fed ++ chunks.flatten) := by
  induction chunks generalizing a fed with
  | nil =>
      rw [List.flatten_nil, List.append_nil]
      exact h
  | cons chunk chunks ih =>
      have hfed : (a.feed chunk).1.isFinished = false := by
        cases hover : a.isOver with
        | true =>
            rw [feed_of_isOver hover]
            exact hfinished
        | false =>
            rw [feed_of_not_isOver hover]
            exact (react_isFinished a _).trans hfinished
      have hplace : (a.feed chunk).1.scanner.place.Holds (fed ++ chunk) := by
        rw [place_feed]
        split
        · next hover =>
            rw [isOver, hfinished, Bool.or_false] at hover
            rw [Place.eq_closed_of_isClosed hover] at h ⊢
            exact List.mem_append_left chunk h
        · exact (Scanner.holds_scan h chunk).settle
      have hrest := ih hfed hplace
      rw [List.append_assoc] at hrest
      exact hrest

theorem settle_feedAll {a : Assembler} (h : a.scanner.place.settle = a.scanner.place)
    (chunks : List Bytes) :
    (a.feedAll chunks).1.scanner.place.settle = (a.feedAll chunks).1.scanner.place := by
  induction chunks generalizing a with
  | nil => exact h
  | cons chunk chunks ih =>
      have hfed : (a.feed chunk).1.scanner.place.settle = (a.feed chunk).1.scanner.place := by
        rw [place_feed]
        split
        · exact h
        · cases (a.scanner.scan chunk).1.place <;> rfl
      exact ih hfed

/-! ## Finishing leniently -/

theorem undelivered_eq_nil_iff (delivered ms : List Message) :
    undelivered delivered ms = [] ↔ forall m, m ∈ ms -> delivered.any (· == m) = true := by
  induction ms with
  | nil => simp [undelivered]
  | cons m ms ih =>
      rw [undelivered]
      cases hm : delivered.any (· == m) with
      | true =>
          rw [if_pos rfl, ih]
          constructor
          · intro h x hx
            rcases List.mem_cons.1 hx with rfl | hx
            · exact hm
            · exact h x hx
          · intro h x hx
            exact h x (List.mem_cons_of_mem m hx)
      | false =>
          rw [if_neg (by decide)]
          constructor
          · intro h
            cases h
          · intro h
            have htrue := h m List.mem_cons_self
            rw [hm] at htrue
            cases htrue

theorem foldl_record_messages (a : Assembler) (ms : List Message) :
    (ms.map Event.message).foldl record a = { a with messages := a.messages ++ ms } := by
  induction ms generalizing a with
  | nil => simp
  | cons m ms ih =>
      rw [List.map_cons, List.foldl_cons, ih]
      simp [record]

def leftover (a : Assembler) : List Message :=
  if a.scanner.place.isClosed then []
  else
    undelivered a.messages
      (Response.recovered (Text.trim (Text.decodeLossy a.scanner.place.held)))

theorem recovery_of_lenient {a : Assembler} (hlenient : a.settings.finishMode = .lenient) :
    a.recovery =
      (undelivered a.messages
        (Response.recovered (Text.trim (Text.decodeLossy a.scanner.place.held)))).map
        .message := by
  unfold recovery
  generalize Text.trim (Text.decodeLossy a.scanner.place.held) = text
  cases text with
  | nil => rfl
  | cons c text =>
      dsimp only [List.isEmpty_cons, Bool.false_eq_true, if_false]
      rw [if_neg (by simp), Response.recovered]
      cases Response.ofChars (c :: text) with
      | ok ms => rfl
      | error e =>
          rw [hlenient]
          rfl

/-- Finishing leniently delivers what is left over, and completes the stream. -/
theorem finish_of_lenient {a : Assembler} (hlenient : a.settings.finishMode = .lenient)
    (hfinished : a.isFinished = false) :
    a.finish.1.messages = a.messages ++ a.leftover ∧ a.finish.1.errorCount = a.errorCount ∧
      a.finish.2 = a.leftover.map .message ++
        (if a.isComplete then [] else [.complete (a.messages ++ a.leftover).length]) := by
  have hrecovered : (if a.scanner.place.isClosed then [] else a.recovery) =
      a.leftover.map Event.message := by
    rw [leftover]
    split
    · rfl
    · exact recovery_of_lenient hlenient
  unfold finish
  rw [if_neg (by simp [hfinished])]
  simp only [hrecovered]
  rw [foldl_record_messages]
  unfold complete
  cases a.isComplete with
  | true => exact ⟨rfl, rfl, rfl⟩
  | false => exact ⟨rfl, rfl, rfl⟩

theorem finish_feedAll_of_lenient {settings : Settings}
    (hlenient : settings.finishMode = .lenient) (chunks : List Bytes) :
    let fed := (start settings).feedAll chunks
    fed.1.finish.1.messages = fed.1.messages ++ fed.1.leftover ∧
      fed.1.finish.1.errorCount = fed.1.errorCount ∧
      fed.1.finish.2 = fed.1.leftover.map .message ++
        (if fed.1.isComplete then []
          else [.complete (fed.1.messages ++ fed.1.leftover).length]) := by
  intro fed
  have halike := (feedAll_start settings chunks).1
  have hsettings : fed.1.settings = settings :=
    halike.settings_eq.trans (react_settings (start settings) _)
  have hfinished : fed.1.isFinished = false :=
    halike.isFinished_eq.trans (react_isFinished (start settings) _)
  apply finish_of_lenient
  · rw [hsettings]
    exact hlenient
  · exact hfinished

theorem holds_start (settings : Settings) (chunks : List Bytes) :
    ((start settings).feedAll chunks).1.scanner.place.Holds chunks.flatten := by
  have hstart : (start settings).scanner.place.Holds [] :=
    ⟨List.not_mem_nil, [], rfl, fun h => absurd rfl h, fun h => nomatch h⟩
  exact holds_feedAll rfl hstart chunks

theorem settle_start (settings : Settings) (chunks : List Bytes) :
    ((start settings).feedAll chunks).1.scanner.place.settle =
      ((start settings).feedAll chunks).1.scanner.place :=
  settle_feedAll rfl chunks

/-! ## Finishing while no object is open -/

section Idle

variable {a : Assembler} {fed held : Bytes}

theorem leftover_eq_nil
    (h : Response.recovered (Text.trim (Text.decodeLossy a.scanner.place.held)) = []) :
    a.leftover = [] := by
  rw [leftover, h]
  split <;> rfl

theorem leftover_of_list {anyObject : Bool} (hplace : a.scanner.place = .list held anyObject)
    (hsettle : a.scanner.place.settle = a.scanner.place) : a.leftover = [] := by
  rw [hplace] at hsettle
  have hheld : [] = held := (Place.list.inj hsettle).1
  subst hheld
  apply leftover_eq_nil
  rw [hplace]
  rfl

theorem leftover_of_outside (hplace : a.scanner.place = .outside held)
    (hholds : a.scanner.place.Holds fed) (hfed : forall b, b ∈ fed -> Json.isToken b = true) :
    a.leftover = [] := by
  rw [hplace] at hholds
  rcases Window.split hholds with ⟨u, rfl, _, _⟩
  apply leftover_eq_nil
  rw [hplace]
  exact Response.recovered_of_tokens fun b hb => hfed b (List.mem_append_right u hb)

/-- Nothing comes of a text without strings in which no object has opened. -/
theorem leftover_of_fresh (hfresh : a.scanner.place.Fresh) (hholds : a.scanner.place.Holds fed)
    (hsettle : a.scanner.place.settle = a.scanner.place)
    (hfed : forall b, b ∈ fed -> Json.isToken b = true) : a.leftover = [] := by
  rcases hfresh.cases with ⟨held, hplace⟩ | ⟨held, hplace⟩
  · exact leftover_of_outside hplace hholds hfed
  · exact leftover_of_list hplace hsettle

end Idle

end Assembler
end SurfaceFeed
