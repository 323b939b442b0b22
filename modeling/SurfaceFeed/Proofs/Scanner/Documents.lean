import SurfaceFeed.Proofs.Json.Grammar
import SurfaceFeed.Scanner

/-!
# The scanner on documents

## Texts that only are held

The scanner knows quotes, backslashes, brackets and braces, and of brackets and
braces only those that it waits for.  On the text of a document that is enough:
a string is passed over whatever its bytes are, and in an object so is every
value, for its braces are balanced.
-/

namespace SurfaceFeed

namespace Place

def holdAll (p : Place) (text : Bytes) : Place :=
  text.foldl hold p

@[simp] theorem holdAll_append (p : Place) (a b : Bytes) :
    p.holdAll (a ++ b) = (p.holdAll a).holdAll b :=
  List.foldl_append

theorem holdAll_object (held : Bytes) (depth : Nat) (text : Bytes) :
    (object held depth).holdAll text = object (text.reverse ++ held) depth := by
  induction text generalizing held with
  | nil => rfl
  | cons b rest ih =>
      have hrest := ih (b :: held)
      simpa [holdAll, hold] using hrest

theorem exists_holdAll_outside (held text : Bytes) :
    exists held', (outside held).holdAll text = outside held' := by
  induction text generalizing held with
  | nil => exact ⟨held, rfl⟩
  | cons b rest ih => exact ih _

theorem exists_holdAll_list (held text : Bytes) (anyObject : Bool) :
    exists held', (list held anyObject).holdAll text = list held' anyObject := by
  induction text generalizing held with
  | nil => exact ⟨held, rfl⟩
  | cons b rest ih => exact ih _

@[simp] theorem holdAll_closed (text : Bytes) : closed.holdAll text = closed := by
  induction text with
  | nil => rfl
  | cons b rest ih => exact ih

end Place

namespace Scanner

@[simp] theorem scan_cons (s : Scanner) (b : UInt8) (rest : Bytes) :
    s.scan (b :: rest) =
      (((s.step b).1.scan rest).1, (s.step b).2.toList ++ ((s.step b).1.scan rest).2) :=
  rfl

theorem scan_append_of_eq {s s' : Scanner} {a : Bytes} (h : s.scan a = (s', [])) (b : Bytes) :
    s.scan (a ++ b) = s'.scan b := by
  rw [scan_append, h]
  rfl

/-- A text that leaves the scanner outside strings and does nothing but be held. -/
def Inert (text : Bytes) : Prop :=
  forall p, scan ⟨.plain, p⟩ text = (⟨.plain, p.holdAll text⟩, [])

theorem inert_nil : Inert [] := fun _ => rfl

theorem Inert.append {a b : Bytes} (ha : Inert a) (hb : Inert b) : Inert (a ++ b) := by
  intro p
  rw [scan_append_of_eq (ha p), hb, Place.holdAll_append]

def isStructural (b : UInt8) : Bool :=
  b == 0x22 || b == 0x5b || b == 0x5d || b == 0x7b || b == 0x7d

theorem turn_of_not_isStructural {b : UInt8} (h : isStructural b = false) (p : Place) :
    p.turn b = (p, none) := by
  simp only [isStructural, Bool.or_eq_false_iff] at h
  rcases h with ⟨⟨⟨⟨_, hopen⟩, hclose⟩, hleft⟩, hright⟩
  cases p <;> simp [Place.turn, hopen, hclose, hleft, hright]

theorem signals_of_not_isStructural {s : Scanner} {text : Bytes}
    (h : forall b, b ∈ text -> isStructural b = false) : (s.scan text).2 = [] := by
  induction text generalizing s with
  | nil => rfl
  | cons b text ih =>
      have hb := h b List.mem_cons_self
      have hstep : (s.step b).2 = none := by
        rcases s with ⟨lexical, place⟩
        cases lexical with
        | plain => exact congrArg Prod.snd (turn_of_not_isStructural hb _)
        | quoted => rfl
        | escaped => rfl
      rw [scan_cons, hstep, ih fun x hx => h x (List.mem_cons_of_mem b hx)]
      rfl

theorem inert_singleton {b : UInt8} (h : isStructural b = false) : Inert [b] := by
  intro p
  have hquote : (b == 0x22) = false := by
    simp only [isStructural, Bool.or_eq_false_iff] at h
    exact h.1.1.1.1
  have hstep : step ⟨.plain, p⟩ b = (⟨.plain, p.hold b⟩, none) := by
    simp [step, turn_of_not_isStructural h, Lexical.next, hquote]
  simp [scan, hstep, Place.holdAll]

theorem inert_of_forall {text : Bytes} (h : forall b, b ∈ text -> isStructural b = false) :
    Inert text := by
  induction text with
  | nil => exact inert_nil
  | cons b rest ih =>
      have hb := inert_singleton (h b List.mem_cons_self)
      exact hb.append (ih fun x hx => h x (List.mem_cons_of_mem b hx))

/-! ## Strings -/

theorem scan_quoted {s : Bytes} (h : forall b, b ∈ s -> b ≠ 0x22 ∧ b ≠ 0x5c) (p : Place) :
    scan ⟨.quoted, p⟩ s = (⟨.quoted, p.holdAll s⟩, []) := by
  induction s generalizing p with
  | nil => rfl
  | cons b s ih =>
      rcases h b List.mem_cons_self with ⟨hquote, hslash⟩
      have hstep : step ⟨.quoted, p⟩ b = (⟨.quoted, p.hold b⟩, none) := by
        simp [step, Lexical.next, hquote, hslash]
      rw [scan_cons, hstep, ih fun x hx => h x (List.mem_cons_of_mem b hx)]
      rfl

theorem scan_hex {a b c d : UInt8} {n : Nat} (h : Text.hexValue4? a b c d = some n)
    (p : Place) :
    scan ⟨.quoted, p⟩ [a, b, c, d] = (⟨.quoted, p.holdAll [a, b, c, d]⟩, []) := by
  apply scan_quoted
  intro x hx
  rcases Json.exists_hexValue_of_mem h x hx with ⟨k, hk⟩
  constructor
  · rintro rfl
    cases hk
  · rintro rfl
    cases hk

theorem scan_escape {e out : Bytes} (h : Json.Escape e out) (p : Place) :
    scan ⟨.quoted, p⟩ (0x5c :: e) = (⟨.quoted, p.holdAll (0x5c :: e)⟩, []) := by
  cases h with
  | short _ _ => rfl
  | @code a b c d n hhex _ _ =>
      have hstart : forall q, scan ⟨.quoted, q⟩ [0x5c, 0x75] =
          (⟨.quoted, q.holdAll [0x5c, 0x75]⟩, []) := fun _ => rfl
      have hwhole := scan_append_of_eq (hstart p) [a, b, c, d]
      rw [scan_hex hhex] at hwhole
      exact hwhole
  | @pair a b c d a' b' c' d' n n' hhex _ _ hhex' _ =>
      have hstart : forall q, scan ⟨.quoted, q⟩ [0x5c, 0x75] =
          (⟨.quoted, q.holdAll [0x5c, 0x75]⟩, []) := fun _ => rfl
      have hfirst := scan_append_of_eq (hstart p) [a, b, c, d]
      rw [scan_hex hhex] at hfirst
      have hsecond := scan_append_of_eq hfirst ([0x5c, 0x75] ++ [a', b', c', d'])
      rw [scan_append_of_eq (hstart _), scan_hex hhex'] at hsecond
      exact hsecond

theorem scan_body {s out : Bytes} (h : Json.Body s out) (p : Place) :
    scan ⟨.quoted, p⟩ s = (⟨.quoted, p.holdAll s⟩, []) := by
  induction h generalizing p with
  | nil => rfl
  | @byte b s out hquote hslash _ _ ih =>
      have hfirst : forall x, x ∈ [b] -> x ≠ 0x22 ∧ x ≠ 0x5c := by
        intro x hx
        rw [List.mem_singleton.1 hx]
        exact ⟨hquote, hslash⟩
      have hwhole := scan_append_of_eq (scan_quoted hfirst p) s
      rw [ih, ← Place.holdAll_append] at hwhole
      exact hwhole
  | @escape e s out more he _ ih =>
      have hwhole := scan_append_of_eq (scan_escape he p) s
      rw [ih, ← Place.holdAll_append] at hwhole
      exact hwhole

theorem inert_quoted {q : Bytes} {name : String} (h : Json.Quoted q name) :
    Inert (0x22 :: q) := by
  intro p
  cases h with
  | @mk body bytes chars hbody _ =>
      have hopen : step ⟨.plain, p⟩ 0x22 = (⟨.quoted, p.hold 0x22⟩, none) := by
        cases p <;> rfl
      have hclose : forall q : Place,
          scan ⟨.quoted, q⟩ [0x22] = (⟨.plain, q.holdAll [0x22]⟩, []) := fun _ => rfl
      rw [scan_cons, hopen, scan_append_of_eq (scan_body hbody _), hclose,
        ← Place.holdAll_append]
      rfl

/-! ## Space, words and numbers -/

theorem inert_space {a : Bytes} (h : Json.Space a) : Inert a := by
  refine inert_of_forall fun b hb => ?_
  have hspace := h b hb
  simp only [Json.Reader.isSpace, Bool.or_eq_true, beq_iff_eq] at hspace
  rcases hspace with ((rfl | rfl) | rfl) | rfl <;> rfl

theorem not_isStructural_of_isNumeric {b : UInt8} (h : Json.Number.isNumeric b = true) :
    isStructural b = false := by
  rw [Bool.eq_false_iff]
  intro hstructural
  simp only [isStructural, Bool.or_eq_true, beq_iff_eq] at hstructural
  rcases hstructural with (((rfl | rfl) | rfl) | rfl) | rfl <;> cases h

theorem inert_digits {negative : Bool} {s : Bytes} {v : Json}
    (h : Json.Number.Digits negative s v) : Inert s :=
  inert_of_forall fun b hb => not_isStructural_of_isNumeric (h.numeric b hb)

theorem inert_comma {b : Bytes} (hb : Json.Space b) : Inert (0x2c :: b) :=
  Inert.append (inert_singleton rfl) (inert_space hb)

theorem inert_colon {b : Bytes} (hb : Json.Space b) : Inert (0x3a :: b) :=
  Inert.append (inert_singleton rfl) (inert_space hb)

/-! ## Values inside an object -/

/-- A text that leaves the count of open braces of an object as it was. -/
def Neutral (text : Bytes) : Prop :=
  forall held depth, scan ⟨.plain, .object held (depth + 1)⟩ text =
    (⟨.plain, .object (text.reverse ++ held) (depth + 1)⟩, [])

theorem Inert.neutral {text : Bytes} (h : Inert text) : Neutral text := by
  intro held depth
  rw [h, Place.holdAll_object]

theorem Neutral.append {a b : Bytes} (ha : Neutral a) (hb : Neutral b) : Neutral (a ++ b) := by
  intro held depth
  rw [scan_append_of_eq (ha held depth), hb]
  simp

theorem neutral_open : Neutral [0x5b] := fun _ _ => rfl

theorem neutral_close : Neutral [0x5d] := fun _ _ => rfl

/-- Braces around a neutral text raise the count and lower it again. -/
theorem Neutral.braced {text : Bytes} (h : Neutral text) :
    Neutral (0x7b :: (text ++ [0x7d])) := by
  intro held depth
  have hopen : step ⟨.plain, .object held (depth + 1)⟩ 0x7b =
      (⟨.plain, .object (0x7b :: held) (depth + 1 + 1)⟩, none) := rfl
  rw [scan_cons, hopen, scan_append_of_eq (h _ _)]
  simp [scan, step, Place.hold, Place.turn, Lexical.next]

def PartNeutral (text : Bytes) : Json.Part -> Prop
  | .value _ | .items _ | .field _ _ => Neutral text
  | .fields _ => exists body, text = body ++ [0x7d] ∧ Neutral body

theorem Neutral.of_written {depth : Nat} {part : Json.Part} {text : Bytes}
    (h : Json.Written depth part text) : PartNeutral text part := by
  induction h with
  | null => exact fun _ _ => rfl
  | yes => exact fun _ _ => rfl
  | no => exact fun _ _ => rfl
  | negative hdigits => exact ((inert_singleton rfl).append (inert_digits hdigits)).neutral
  | number _ hdigits => exact (inert_digits hdigits).neutral
  | text hq => exact (inert_quoted hq).neutral
  | noItems ha => exact neutral_open.append ((inert_space ha).neutral.append neutral_close)
  | someItems ha _ _ ihs iht =>
      exact neutral_open.append ((inert_space ha).neutral.append (ihs.append iht))
  | endOfItems ha => exact (inert_space ha).neutral.append neutral_close
  | nextItem ha hb _ _ ihs iht =>
      exact (inert_space ha).neutral.append
        ((inert_comma hb).neutral.append (ihs.append iht))
  | field hq ha hb _ ihs =>
      exact (inert_quoted hq).neutral.append
        ((inert_space ha).neutral.append ((inert_colon hb).neutral.append ihs))
  | noFields ha => exact (inert_space ha).neutral.braced
  | @someFields depth a s t name v fs ha _ _ ihs iht =>
      rcases iht with ⟨body, rfl, hbody⟩
      have hwhole := ((inert_space ha).neutral.append (Neutral.append ihs hbody)).braced
      have hassoc : a ++ (s ++ (body ++ [0x7d])) = (a ++ (s ++ body)) ++ [0x7d] := by simp
      rw [hassoc]
      exact hwhole
  | @endOfFields depth a ha => exact ⟨a, rfl, (inert_space ha).neutral⟩
  | @nextField depth a b s t name v fs ha hb _ _ ihs iht =>
      rcases iht with ⟨body, rfl, hbody⟩
      refine ⟨a ++ ((0x2c :: b) ++ (s ++ body)), by simp, ?_⟩
      exact (inert_space ha).neutral.append
        ((inert_comma hb).neutral.append (ihs.append hbody))

theorem neutral_value {depth : Nat} {v : Json} {text : Bytes}
    (h : Json.Written depth (.value v) text) : Neutral text :=
  Neutral.of_written h

theorem exists_braced_of_object {depth : Nat} {fields : List (String × Json)} {text : Bytes}
    (h : Json.Written depth (.value (.object fields)) text) :
    exists body, text = 0x7b :: (body ++ [0x7d]) ∧ Neutral body := by
  generalize hv : Json.object fields = v at h
  cases h with
  | noFields ha => exact ⟨_, rfl, (inert_space ha).neutral⟩
  | @someFields depth a s t name v fs ha hs ht =>
      rcases Neutral.of_written ht with ⟨body, rfl, hbody⟩
      refine ⟨a ++ (s ++ body), by simp, ?_⟩
      exact (inert_space ha).neutral.append ((Neutral.of_written hs).append hbody)
  | negative hdigits =>
      have hscalar := hdigits.isScalar
      rw [← hv] at hscalar
      cases hscalar
  | number _ hdigits =>
      have hscalar := hdigits.isScalar
      rw [← hv] at hscalar
      cases hscalar
  | null => cases hv
  | yes => cases hv
  | no => cases hv
  | text _ => cases hv
  | noItems _ => cases hv
  | someItems _ _ _ => cases hv

/-! ## Objects in a list -/

/-- An object in the list is signalled when its last brace comes, and not before. -/
theorem scan_braced {body : Bytes} (h : Neutral body) (held : Bytes) (anyObject : Bool) :
    scan ⟨.plain, .list held anyObject⟩ (0x7b :: body) =
        (⟨.plain, .object (body.reverse ++ [0x7b]) 1⟩, []) ∧
      scan ⟨.plain, .list held anyObject⟩ (0x7b :: (body ++ [0x7d])) =
        (⟨.plain, .list [] true⟩, [.object (0x7b :: (body ++ [0x7d]))]) := by
  have hopen : step ⟨.plain, .list held anyObject⟩ 0x7b =
      (⟨.plain, .object [0x7b] 1⟩, none) := rfl
  have hbody := h [0x7b] 0
  constructor
  · rw [scan_cons, hopen, hbody]
    rfl
  · rw [scan_cons, hopen, scan_append_of_eq hbody]
    simp [scan, step, Place.hold, Place.turn, Lexical.next]

theorem signals_of_part {s : Scanner} {t text : Bytes} (ht : t <+: text)
    (h : (s.scan text).2 = []) : (s.scan t).2 = [] := by
  rcases ht with ⟨rest, rfl⟩
  rw [scan_append] at h
  exact (List.append_eq_nil_iff.1 h).1

theorem exists_object_of_signals {l : Lexical} {held t : Bytes} {depth : Nat}
    (h : (scan ⟨l, .object held (depth + 1)⟩ t).2 = []) :
    exists l' depth', (scan ⟨l, .object held (depth + 1)⟩ t).1 =
      ⟨l', .object (t.reverse ++ held) (depth' + 1)⟩ := by
  induction t generalizing l held depth with
  | nil => exact ⟨l, depth, rfl⟩
  | cons b t ih =>
      rw [scan_cons] at h
      rcases List.append_eq_nil_iff.1 h with ⟨hfirst, hrest⟩
      have hstep : exists l' depth', (step ⟨l, .object held (depth + 1)⟩ b).1 =
          ⟨l', .object (b :: held) (depth' + 1)⟩ := by
        cases l with
        | quoted => exact ⟨_, _, rfl⟩
        | escaped => exact ⟨_, _, rfl⟩
        | plain =>
            simp only [step, Place.hold, Place.turn] at hfirst ⊢
            split
            · exact ⟨_, _, rfl⟩
            · split
              · cases depth with
                | zero =>
                    next hopen hclose =>
                      simp [hopen, hclose] at hfirst
                | succ depth => exact ⟨_, _, rfl⟩
              · exact ⟨_, _, rfl⟩
      rcases hstep with ⟨l', depth', hstep⟩
      rw [hstep] at hrest
      rcases ih hrest with ⟨l'', depth'', hscan⟩
      rw [scan_cons, hstep, hscan]
      exact ⟨l'', depth'', by simp⟩

/-- Of an object in the list that is not all there, the scanner holds what there is of it. -/
theorem scan_braced_part {body : Bytes} (h : Neutral body) (held : Bytes) (anyObject : Bool)
    {t : Bytes} (hne : t ≠ []) (ht : t <+: 0x7b :: (body ++ [0x7d]))
    (hlt : t.length < (0x7b :: (body ++ [0x7d])).length) :
    exists l depth, scan ⟨.plain, .list held anyObject⟩ t =
      (⟨l, .object t.reverse (depth + 1)⟩, []) := by
  have hshort : t <+: 0x7b :: body := by
    refine (List.prefix_concat_iff.1 ht).resolve_left ?_
    rintro rfl
    exact Nat.lt_irrefl _ hlt
  have hsignals := signals_of_part hshort (congrArg Prod.snd (scan_braced h held anyObject).1)
  cases t with
  | nil => exact absurd rfl hne
  | cons b t =>
      cases (List.cons_prefix_cons.1 hshort).1
      have hopen : step ⟨.plain, .list held anyObject⟩ 0x7b =
          (⟨.plain, .object [0x7b] 1⟩, none) := rfl
      rw [scan_cons, hopen] at hsignals ⊢
      rcases @exists_object_of_signals .plain [0x7b] t 0 hsignals with ⟨l, depth, hplace⟩
      refine ⟨l, depth, Prod.ext ?_ hsignals⟩
      rw [List.reverse_cons]
      exact hplace

end Scanner
end SurfaceFeed
