import SurfaceFeed.Proofs.Json.Number
import SurfaceFeed.Proofs.Json.Strings

/-!
# The grammar of documents

## Texts and what they write

A text writes a document by rules that do not mention the reader.  The parts of
a text are documents, named fields, and what follows a first member of a list or
an object up to the closing bracket.
-/

namespace SurfaceFeed
namespace Json

def Space (s : Bytes) : Prop :=
  forall b, b ∈ s -> Reader.isSpace b = true

theorem space_nil : Space [] := by
  intro b hb
  cases hb

theorem Space.append {a b : Bytes} (ha : Space a) (hb : Space b) : Space (a ++ b) := by
  intro x hx
  rcases List.mem_append.1 hx with hx | hx
  · exact ha x hx
  · exact hb x hx

theorem Space.skipSpace_append {a : Bytes} (ha : Space a) {b : UInt8} (s : Bytes)
    (hb : Reader.isSpace b = false) : Reader.skipSpace (a ++ b :: s) = b :: s := by
  rw [Reader.skipSpace, List.dropWhile_append_of_pos ha, List.dropWhile_cons_of_neg]
  simp [hb]

theorem Space.skipSpace_eq_nil {a : Bytes} (ha : Space a) : Reader.skipSpace a = [] := by
  have hdrop := @List.dropWhile_append_of_pos _ Reader.isSpace a [] ha
  rw [List.append_nil] at hdrop
  exact hdrop

theorem exists_space (s : Bytes) : exists a, s = a ++ Reader.skipSpace s ∧ Space a :=
  ⟨s.takeWhile Reader.isSpace, List.takeWhile_append_dropWhile.symm,
    List.all_eq_true.1 List.all_takeWhile⟩

theorem isSpace_of_skipSpace_eq_cons {s t : Bytes} {b : UInt8}
    (h : Reader.skipSpace s = b :: t) : Reader.isSpace b = false := by
  have hhead := List.head?_dropWhile_not Reader.isSpace s
  rw [Reader.skipSpace] at h
  rw [h] at hhead
  simpa using hhead

theorem isNumeric_of_isSpace {b : UInt8} (h : Reader.isSpace b = true) :
    Number.isNumeric b = false := by
  simp only [Reader.isSpace, Bool.or_eq_true, beq_iff_eq] at h
  rcases h with ((rfl | rfl) | rfl) | rfl <;> decide

theorem Space.stops {a : Bytes} (ha : Space a) {b : UInt8} (hb : Number.isNumeric b = false)
    (s : Bytes) : Number.Stops (a ++ b :: s) := by
  cases a with
  | nil => exact Number.stops_cons s hb
  | cons x a => exact Number.stops_cons _ (isNumeric_of_isSpace (ha x List.mem_cons_self))

theorem Space.stops_self {s : Bytes} (h : Space s) : Number.Stops s := by
  cases s with
  | nil => exact Number.stops_nil
  | cons b s => exact Number.stops_cons s (isNumeric_of_isSpace (h b List.mem_cons_self))

/-! ## The rules -/

/-- What a part of a text writes. -/
inductive Part where
  | value (v : Json)
  | items (vs : List Json)
  | field (name : String) (v : Json)
  | fields (fs : List (String × Json))

/-- The parts of a text in which lists and objects nest at most `depth` deep. -/
inductive Written : Nat -> Part -> Bytes -> Prop where
  | null {depth : Nat} : Written depth (.value .null) [0x6e, 0x75, 0x6c, 0x6c]
  | yes {depth : Nat} : Written depth (.value (.bool true)) [0x74, 0x72, 0x75, 0x65]
  | no {depth : Nat} : Written depth (.value (.bool false)) [0x66, 0x61, 0x6c, 0x73, 0x65]
  | negative {depth : Nat} {s : Bytes} {v : Json} :
      Number.Digits true s v -> Written depth (.value v) (0x2d :: s)
  | number {depth : Nat} {b : UInt8} {s : Bytes} {v : Json} :
      Number.isDigit b = true -> Number.Digits false (b :: s) v ->
      Written depth (.value v) (b :: s)
  | text {depth : Nat} {q : Bytes} {s : String} :
      Quoted q s -> Written depth (.value (.text s)) (0x22 :: q)
  | noItems {depth : Nat} {a : Bytes} :
      Space a -> Written (depth + 1) (.value (.array [])) (0x5b :: (a ++ [0x5d]))
  | someItems {depth : Nat} {a s t : Bytes} {v : Json} {vs : List Json} :
      Space a -> Written depth (.value v) s -> Written depth (.items vs) t ->
      Written (depth + 1) (.value (.array (v :: vs))) (0x5b :: (a ++ (s ++ t)))
  | endOfItems {depth : Nat} {a : Bytes} :
      Space a -> Written depth (.items []) (a ++ [0x5d])
  | nextItem {depth : Nat} {a b s t : Bytes} {v : Json} {vs : List Json} :
      Space a -> Space b -> Written depth (.value v) s -> Written depth (.items vs) t ->
      Written depth (.items (v :: vs)) (a ++ 0x2c :: (b ++ (s ++ t)))
  | field {depth : Nat} {q a b s : Bytes} {name : String} {v : Json} :
      Quoted q name -> Space a -> Space b -> Written depth (.value v) s ->
      Written depth (.field name v) (0x22 :: (q ++ (a ++ 0x3a :: (b ++ s))))
  | noFields {depth : Nat} {a : Bytes} :
      Space a -> Written (depth + 1) (.value (.object [])) (0x7b :: (a ++ [0x7d]))
  | someFields {depth : Nat} {a s t : Bytes} {name : String} {v : Json}
      {fs : List (String × Json)} :
      Space a -> Written depth (.field name v) s -> Written depth (.fields fs) t ->
      Written (depth + 1) (.value (.object (Fields.ofList ((name, v) :: fs))))
        (0x7b :: (a ++ (s ++ t)))
  | endOfFields {depth : Nat} {a : Bytes} :
      Space a -> Written depth (.fields []) (a ++ [0x7d])
  | nextField {depth : Nat} {a b s t : Bytes} {name : String} {v : Json}
      {fs : List (String × Json)} :
      Space a -> Space b -> Written depth (.field name v) s -> Written depth (.fields fs) t ->
      Written depth (.fields ((name, v) :: fs)) (a ++ 0x2c :: (b ++ (s ++ t)))

/-! ## How the parts begin -/

/-- A document begins with a byte that is neither space nor punctuation between members. -/
theorem Written.exists_head {depth : Nat} {v : Json} {s : Bytes}
    (h : Written depth (.value v) s) :
    exists b t, s = b :: t ∧ Reader.isSpace b = false ∧ b ≠ 0x5d := by
  cases h with
  | null => exact ⟨_, _, rfl, by decide, by decide⟩
  | yes => exact ⟨_, _, rfl, by decide, by decide⟩
  | no => exact ⟨_, _, rfl, by decide, by decide⟩
  | negative _ => exact ⟨_, _, rfl, by decide, by decide⟩
  | number hdigit _ =>
      refine ⟨_, _, rfl, ?_, ?_⟩
      · rw [Bool.eq_false_iff]
        intro hspace
        have hnot := isNumeric_of_isSpace hspace
        simp [Number.isNumeric, hdigit] at hnot
      · rintro rfl
        cases hdigit
  | text _ => exact ⟨_, _, rfl, by decide, by decide⟩
  | noItems _ => exact ⟨_, _, rfl, by decide, by decide⟩
  | someItems _ _ _ => exact ⟨_, _, rfl, by decide, by decide⟩
  | noFields _ => exact ⟨_, _, rfl, by decide, by decide⟩
  | someFields _ _ _ => exact ⟨_, _, rfl, by decide, by decide⟩

theorem Written.items_stops {depth : Nat} {vs : List Json} {t : Bytes}
    (h : Written depth (.items vs) t) (rest : Bytes) : Number.Stops (t ++ rest) := by
  cases h with
  | endOfItems ha =>
      rw [List.append_assoc]
      exact ha.stops (by decide) _
  | nextItem ha _ _ _ =>
      rw [List.append_assoc]
      exact ha.stops (by decide) _

theorem Written.fields_stops {depth : Nat} {fs : List (String × Json)} {t : Bytes}
    (h : Written depth (.fields fs) t) (rest : Bytes) : Number.Stops (t ++ rest) := by
  cases h with
  | endOfFields ha =>
      rw [List.append_assoc]
      exact ha.stops (by decide) _
  | nextField ha _ _ _ =>
      rw [List.append_assoc]
      exact ha.stops (by decide) _

/-! ## Scalars, lists and objects -/

theorem Written.shape {depth : Nat} {v : Json} {s : Bytes}
    (h : Written depth (.value v) s) :
    (v.isScalar = true ∧ exists b t, s = b :: t ∧ b ≠ 0x5b ∧ b ≠ 0x7b) ∨
      (exists vs t, v = .array vs ∧ s = 0x5b :: t) ∨
      exists fs t, v = .object fs ∧ s = 0x7b :: t := by
  cases h with
  | null => exact .inl ⟨rfl, _, _, rfl, by decide, by decide⟩
  | yes => exact .inl ⟨rfl, _, _, rfl, by decide, by decide⟩
  | no => exact .inl ⟨rfl, _, _, rfl, by decide, by decide⟩
  | negative hdigits => exact .inl ⟨hdigits.isScalar, _, _, rfl, by decide, by decide⟩
  | number hdigit hdigits =>
      refine .inl ⟨hdigits.isScalar, _, _, rfl, ?_, ?_⟩
      · rintro rfl
        cases hdigit
      · rintro rfl
        cases hdigit
  | text _ => exact .inl ⟨rfl, _, _, rfl, by decide, by decide⟩
  | noItems _ => exact .inr (.inl ⟨_, _, rfl, rfl⟩)
  | someItems _ _ _ => exact .inr (.inl ⟨_, _, rfl, rfl⟩)
  | noFields _ => exact .inr (.inr ⟨_, _, rfl, rfl⟩)
  | someFields _ _ _ => exact .inr (.inr ⟨_, _, rfl, rfl⟩)

theorem Written.exists_of_list {depth : Nat} {v : Json} {vs : List Json} {s : Bytes}
    (h : Written depth (.value (.array (v :: vs))) s) :
    exists below a t u, depth = below + 1 ∧ s = 0x5b :: (a ++ (t ++ u)) ∧ Space a ∧
      Written below (.value v) t ∧ Written below (.items vs) u := by
  generalize hv : Json.array (v :: vs) = w at h
  cases h with
  | someItems ha hs ht =>
      cases hv
      exact ⟨_, _, _, _, rfl, rfl, ha, hs, ht⟩
  | negative hdigits =>
      have hscalar := hdigits.isScalar
      rw [← hv] at hscalar
      cases hscalar
  | number _ hdigits =>
      have hscalar := hdigits.isScalar
      rw [← hv] at hscalar
      cases hscalar
  | null => cases hv
  | yes => cases hv
  | no => cases hv
  | text _ => cases hv
  | noItems _ => cases hv
  | noFields _ => cases hv
  | someFields _ _ _ => cases hv

theorem Written.exists_of_nil {depth : Nat} {s : Bytes}
    (h : Written depth (.value (.array [])) s) :
    exists a, Space a ∧ s = 0x5b :: (a ++ [0x5d]) := by
  generalize hv : Json.array [] = w at h
  cases h with
  | noItems ha => exact ⟨_, ha, rfl⟩
  | negative hdigits =>
      have hscalar := hdigits.isScalar
      rw [← hv] at hscalar
      cases hscalar
  | number _ hdigits =>
      have hscalar := hdigits.isScalar
      rw [← hv] at hscalar
      cases hscalar
  | null => cases hv
  | yes => cases hv
  | no => cases hv
  | text _ => cases hv
  | someItems _ _ _ => cases hv
  | noFields _ => cases hv
  | someFields _ _ _ => cases hv

/-! ## Depth -/

theorem Written.mono {depth depth' : Nat} {part : Part} {text : Bytes}
    (h : Written depth part text) (hle : depth ≤ depth') : Written depth' part text := by
  induction h generalizing depth' with
  | null => exact .null
  | yes => exact .yes
  | no => exact .no
  | negative hdigits => exact .negative hdigits
  | number hdigit hdigits => exact .number hdigit hdigits
  | text hq => exact .text hq
  | noItems ha =>
      cases depth' with
      | zero => cases hle
      | succ depth' => exact .noItems ha
  | someItems ha _ _ ihs iht =>
      cases depth' with
      | zero => cases hle
      | succ depth' =>
          have hle := Nat.le_of_succ_le_succ hle
          exact .someItems ha (ihs hle) (iht hle)
  | endOfItems ha => exact .endOfItems ha
  | nextItem ha hb _ _ ihs iht => exact .nextItem ha hb (ihs hle) (iht hle)
  | field hq ha hb _ ihs => exact .field hq ha hb (ihs hle)
  | noFields ha =>
      cases depth' with
      | zero => cases hle
      | succ depth' => exact .noFields ha
  | someFields ha _ _ ihs iht =>
      cases depth' with
      | zero => cases hle
      | succ depth' =>
          have hle := Nat.le_of_succ_le_succ hle
          exact .someFields ha (ihs hle) (iht hle)
  | endOfFields ha => exact .endOfFields ha
  | nextField ha hb _ _ ihs iht => exact .nextField ha hb (ihs hle) (iht hle)

/-! ## Tokens and strings -/

def isToken (b : UInt8) : Bool :=
  Reader.isSpace b || Number.isNumeric b ||
    [0x5b, 0x5d, 0x7b, 0x7d, 0x2c, 0x3a].contains b ||
    [0x6e, 0x75, 0x6c, 0x74, 0x72, 0x65, 0x66, 0x61, 0x73].contains b

theorem Space.isToken {a : Bytes} (h : Space a) : forall b, b ∈ a -> isToken b = true := by
  intro b hb
  simp [Json.isToken, h b hb]

theorem Number.Digits.isToken {negative : Bool} {s : Bytes} {v : Json}
    (h : Number.Digits negative s v) : forall b, b ∈ s -> isToken b = true := by
  intro b hb
  simp [Json.isToken, h.numeric b hb]

section Closed

variable {P : Bytes -> Prop} (hnil : P []) (happend : forall a b, P a -> P b -> P (a ++ b))
  (htoken : forall b, isToken b = true -> P [b])

include hnil happend htoken

theorem of_tokens {s : Bytes} (h : forall b, b ∈ s -> isToken b = true) : P s := by
  induction s with
  | nil => exact hnil
  | cons b s ih =>
      have hfirst := htoken b (h b List.mem_cons_self)
      exact happend [b] s hfirst (ih fun x hx => h x (List.mem_cons_of_mem b hx))

/-- What holds of tokens and strings, and of two texts in a row, holds of all documents. -/
theorem Written.of_closed (hstring : forall q name, Quoted q name -> P (0x22 :: q))
    {depth : Nat} {part : Part} {text : Bytes} (h : Written depth part text) : P text := by
  have hspace : forall a, Space a -> P a := fun _ ha =>
    of_tokens hnil happend htoken ha.isToken
  have hcons : forall b s, isToken b = true -> P s -> P (b :: s) := fun b s hb hs =>
    happend [b] s (htoken b hb) hs
  induction h with
  | null => exact of_tokens hnil happend htoken (forall_mem_of_all rfl)
  | yes => exact of_tokens hnil happend htoken (forall_mem_of_all rfl)
  | no => exact of_tokens hnil happend htoken (forall_mem_of_all rfl)
  | negative hdigits =>
      exact hcons _ _ rfl (of_tokens hnil happend htoken hdigits.isToken)
  | number _ hdigits => exact of_tokens hnil happend htoken hdigits.isToken
  | text hq => exact hstring _ _ hq
  | noItems ha => exact hcons _ _ rfl (happend _ _ (hspace _ ha) (htoken _ rfl))
  | someItems ha _ _ ihs iht =>
      exact hcons _ _ rfl (happend _ _ (hspace _ ha) (happend _ _ ihs iht))
  | endOfItems ha => exact happend _ _ (hspace _ ha) (htoken _ rfl)
  | nextItem ha hb _ _ ihs iht =>
      exact happend _ _ (hspace _ ha)
        (hcons _ _ rfl (happend _ _ (hspace _ hb) (happend _ _ ihs iht)))
  | field hq ha hb _ ihs =>
      exact happend _ _ (hstring _ _ hq)
        (happend _ _ (hspace _ ha) (hcons _ _ rfl (happend _ _ (hspace _ hb) ihs)))
  | noFields ha => exact hcons _ _ rfl (happend _ _ (hspace _ ha) (htoken _ rfl))
  | someFields ha _ _ ihs iht =>
      exact hcons _ _ rfl (happend _ _ (hspace _ ha) (happend _ _ ihs iht))
  | endOfFields ha => exact happend _ _ (hspace _ ha) (htoken _ rfl)
  | nextField ha hb _ _ ihs iht =>
      exact happend _ _ (hspace _ ha)
        (hcons _ _ rfl (happend _ _ (hspace _ hb) (happend _ _ ihs iht)))

end Closed

/-! ## Whole texts -/

/-- A text of bytes that writes a document, with space around it. -/
def Writes (text : Bytes) (v : Json) : Prop :=
  exists a s b, text = a ++ (s ++ b) ∧ Space a ∧ Space b ∧
    Written Reader.deepest (.value v) s

theorem Writes.exists_front {b : UInt8} {text : Bytes} {v : Json} (h : Writes (b :: text) v)
    (hb : Reader.isSpace b = false) :
    exists s a, b :: text = s ++ a ∧ Space a ∧ Written Reader.deepest (.value v) s := by
  rcases h with ⟨a, s, a', htext, ha, ha', hs⟩
  cases a with
  | nil => exact ⟨s, a', htext, ha', hs⟩
  | cons x a =>
      have hx := ha x List.mem_cons_self
      rw [← (List.cons.inj htext).1, hb] at hx
      cases hx

theorem Writes.of_closed {P : Bytes -> Prop} (hnil : P [])
    (happend : forall a b, P a -> P b -> P (a ++ b)) (htoken : forall b, isToken b = true -> P [b])
    (hstring : forall q name, Quoted q name -> P (0x22 :: q)) {text : Bytes} {v : Json}
    (h : Writes text v) : P text := by
  rcases h with ⟨a, s, b, rfl, ha, hb, hs⟩
  apply happend
  · exact of_tokens hnil happend htoken ha.isToken
  · apply happend
    · exact hs.of_closed hnil happend htoken hstring
    · exact of_tokens hnil happend htoken hb.isToken

end Json
end SurfaceFeed
