import SurfaceFeed.Proofs.Json.Grammar

/-!
# Reading by the grammar

## The reader and the rules

The reader accepts just the texts that the rules derive, and takes a document
from the front of a text whatever follows it, as long as a number at its end does
not run on.
-/

namespace SurfaceFeed
namespace Json

/-! ## What the rules derive, the reader takes -/

/-- How the reader takes a part from the front of a text. -/
def Part.Taken (depth : Nat) (text : Bytes) : Part -> Prop
  | value v => forall fuel rest, text.length ≤ fuel -> Number.Stops rest ->
      Reader.value fuel depth (text ++ rest) = .ok (v, rest)
  | items vs => forall fuel count rest, text.length ≤ fuel -> text.length ≤ count ->
      Reader.items (Reader.value fuel depth) count false (text ++ rest) = .ok (vs, rest)
  | field name v => exists t, text = 0x22 :: t ∧
      forall fuel rest, text.length ≤ fuel -> Number.Stops rest ->
        exists s s', Reader.string fuel (t ++ rest) = .ok (name, s) ∧
          Reader.colon s = .ok s' ∧ Reader.value fuel depth s' = .ok (v, rest)
  | fields fs => forall fuel count rest, text.length ≤ fuel -> text.length ≤ count ->
      Reader.fields (Reader.string fuel) (Reader.value fuel depth) count false
        (text ++ rest) = .ok (fs, rest)

@[simp] theorem word_append (letters rest : Bytes) (v : Json) :
    Reader.word letters v (letters ++ rest) = .ok (v, rest) := by
  induction letters with
  | nil => rfl
  | cons letter letters ih => simpa [Reader.word] using ih

theorem Space.value_append {a : Bytes} (ha : Space a) (fuel depth : Nat) (s : Bytes) :
    Reader.value fuel depth (a ++ s) = Reader.value fuel depth s := by
  have hskip : Reader.skipSpace (a ++ s) = Reader.skipSpace s :=
    List.dropWhile_append_of_pos ha
  rw [Reader.value, Reader.value, hskip]

theorem value_digit {b : UInt8} (hdigit : Number.isDigit b = true) (fuel depth : Nat)
    (s : Bytes) : Reader.value fuel depth (b :: s) = Number.read false (b :: s) := by
  have hne : forall x : UInt8, Number.isDigit x = false -> (b == x) = false := by
    intro x hx
    rw [beq_eq_false_iff_ne]
    rintro rfl
    rw [hdigit] at hx
    cases hx
  have hspace : Reader.isSpace b = false := by
    rw [Bool.eq_false_iff]
    intro hspace
    have hnot := isNumeric_of_isSpace hspace
    simp [Number.isNumeric, hdigit] at hnot
  have hskip : Reader.skipSpace (b :: s) = b :: s := space_nil.skipSpace_append s hspace
  rw [Reader.value, hskip]
  simp [hne 0x6e (by decide), hne 0x74 (by decide), hne 0x66 (by decide),
    hne 0x2d (by decide), hdigit]

/-! The first byte of a document decides how it is read. -/

theorem value_null (fuel depth : Nat) (s : Bytes) :
    Reader.value fuel depth (0x6e :: s) = Reader.word [0x75, 0x6c, 0x6c] .null s := by
  cases depth <;> rfl

theorem value_true (fuel depth : Nat) (s : Bytes) :
    Reader.value fuel depth (0x74 :: s) = Reader.word [0x72, 0x75, 0x65] (.bool true) s := by
  cases depth <;> rfl

theorem value_false (fuel depth : Nat) (s : Bytes) :
    Reader.value fuel depth (0x66 :: s) =
      Reader.word [0x61, 0x6c, 0x73, 0x65] (.bool false) s := by
  cases depth <;> rfl

theorem value_minus (fuel depth : Nat) (s : Bytes) :
    Reader.value fuel depth (0x2d :: s) = Number.read true s := by
  cases depth <;> rfl

theorem value_quote (fuel depth : Nat) (s : Bytes) :
    Reader.value fuel depth (0x22 :: s) =
      (do
        let (name, s) ← Reader.string fuel s
        .ok (.text name, s)) := by
  cases depth <;> rfl

theorem value_list (fuel depth : Nat) (s : Bytes) :
    Reader.value fuel (depth + 1) (0x5b :: s) =
      (do
        let (values, s) ← Reader.items (Reader.value fuel depth) fuel true s
        .ok (.array values, s)) :=
  rfl

theorem value_object (fuel depth : Nat) (s : Bytes) :
    Reader.value fuel (depth + 1) (0x7b :: s) =
      (do
        let (values, s) ←
          Reader.fields (Reader.string fuel) (Reader.value fuel depth) fuel true s
        .ok (.object (Fields.ofList values), s)) :=
  rfl

theorem nextItem_true {a s : Bytes} {b : UInt8} (ha : Space a)
    (hspace : Reader.isSpace b = false) (hclose : b ≠ 0x5d) :
    Reader.nextItem true (a ++ b :: s) = .ok (.member (b :: s)) := by
  simp [Reader.nextItem, ha.skipSpace_append s hspace, hclose]

theorem nextItem_false {a b s : Bytes} {c : UInt8} (ha : Space a) (hb : Space b)
    (hspace : Reader.isSpace c = false) (hclose : c ≠ 0x5d) :
    Reader.nextItem false (a ++ 0x2c :: (b ++ c :: s)) = .ok (.member (c :: s)) := by
  have hcomma : Reader.isSpace 0x2c = false := by decide
  simp [Reader.nextItem, ha.skipSpace_append _ hcomma, hb.skipSpace_append s hspace, hclose]

theorem nextItem_close {a : Bytes} (ha : Space a) (first : Bool) (rest : Bytes) :
    Reader.nextItem first (a ++ 0x5d :: rest) = .ok (.closed rest) := by
  have hclose : Reader.isSpace 0x5d = false := by decide
  simp [Reader.nextItem, ha.skipSpace_append rest hclose]

theorem nextField_true {a : Bytes} (ha : Space a) (s : Bytes) :
    Reader.nextField true (a ++ 0x22 :: s) = .ok (.member s) := by
  have hquote : Reader.isSpace 0x22 = false := by decide
  simp [Reader.nextField, ha.skipSpace_append s hquote]

theorem nextField_false {a b : Bytes} (ha : Space a) (hb : Space b) (s : Bytes) :
    Reader.nextField false (a ++ 0x2c :: (b ++ 0x22 :: s)) = .ok (.member s) := by
  have hcomma : Reader.isSpace 0x2c = false := by decide
  have hquote : Reader.isSpace 0x22 = false := by decide
  simp [Reader.nextField, ha.skipSpace_append _ hcomma, hb.skipSpace_append s hquote]

theorem nextField_close {a : Bytes} (ha : Space a) (first : Bool) (rest : Bytes) :
    Reader.nextField first (a ++ 0x7d :: rest) = .ok (.closed rest) := by
  have hclose : Reader.isSpace 0x7d = false := by decide
  simp [Reader.nextField, ha.skipSpace_append rest hclose]

theorem colon_append {a : Bytes} (ha : Space a) (s : Bytes) :
    Reader.colon (a ++ 0x3a :: s) = .ok s := by
  have hcolon : Reader.isSpace 0x3a = false := by decide
  simp [Reader.colon, ha.skipSpace_append s hcolon]

/-- Every part that the rules derive is taken by the reader, whatever follows it. -/
theorem Written.taken {depth : Nat} {part : Part} {text : Bytes}
    (h : Written depth part text) : part.Taken depth text := by
  induction h with
  | null =>
      intro fuel rest _ _
      exact (value_null _ _ _).trans (word_append _ rest .null)
  | yes =>
      intro fuel rest _ _
      exact (value_true _ _ _).trans (word_append _ rest (.bool true))
  | no =>
      intro fuel rest _ _
      exact (value_false _ _ _).trans (word_append _ rest (.bool false))
  | negative hdigits =>
      intro fuel rest _ hrest
      exact (value_minus _ _ _).trans (hdigits.read_append hrest)
  | number hdigit hdigits =>
      intro fuel rest _ hrest
      exact (value_digit hdigit _ _ _).trans (hdigits.read_append hrest)
  | text hq =>
      intro fuel rest hfuel _
      have hstring := hq.string_append rest (Nat.le_of_succ_le hfuel)
      rw [List.cons_append, value_quote, hstring]
      rfl
  | @noItems depth a ha =>
      intro fuel rest hfuel _
      cases fuel with
      | zero => cases hfuel
      | succ fuel =>
          rw [List.cons_append, value_list, List.append_assoc]
          simp [Reader.items, nextItem_close ha, bind, Except.bind]
  | @someItems depth a s t v vs ha hs ht ihs iht =>
      intro fuel rest hfuel _
      simp only [List.length_cons, List.length_append] at hfuel
      cases fuel with
      | zero => cases hfuel
      | succ fuel =>
          have hitem := ihs (fuel + 1) (t ++ rest) (by omega) (ht.items_stops rest)
          have hitems := iht (fuel + 1) fuel rest (by omega) (by omega)
          rcases hs.exists_head with ⟨b, s, rfl, hspace, hclose⟩
          rw [List.cons_append, value_list, List.append_assoc, List.append_assoc]
          simp only [List.cons_append] at hitem ⊢
          simp [Reader.items, nextItem_true ha hspace hclose, hitem, hitems, bind, Except.bind]
  | @endOfItems depth a ha =>
      intro fuel count rest _ hcount
      cases count with
      | zero => simp at hcount
      | succ count =>
          rw [List.append_assoc]
          simp [Reader.items, nextItem_close ha, bind, Except.bind]
  | @nextItem depth a b s t v vs ha hb hs ht ihs iht =>
      intro fuel count rest hfuel hcount
      simp only [List.length_cons, List.length_append] at hfuel hcount
      cases count with
      | zero => omega
      | succ count =>
          have hitem := ihs fuel (t ++ rest) (by omega) (ht.items_stops rest)
          have hitems := iht fuel count rest (by omega) (by omega)
          rcases hs.exists_head with ⟨c, s, rfl, hspace, hclose⟩
          simp only [List.append_assoc, List.cons_append] at hitem ⊢
          simp [Reader.items, nextItem_false ha hb hspace hclose, hitem, hitems, bind,
            Except.bind]
  | @field depth q a b s name v hq ha hb hs ihs =>
      refine ⟨_, rfl, ?_⟩
      intro fuel rest hfuel hrest
      simp only [List.length_cons, List.length_append] at hfuel
      refine ⟨a ++ 0x3a :: (b ++ (s ++ rest)), b ++ (s ++ rest), ?_, colon_append ha _, ?_⟩
      · simp only [List.append_assoc, List.cons_append]
        exact hq.string_append _ (by omega)
      · rw [hb.value_append]
        exact ihs fuel rest (by omega) hrest
  | @noFields depth a ha =>
      intro fuel rest hfuel _
      cases fuel with
      | zero => cases hfuel
      | succ fuel =>
          rw [List.cons_append, value_object, List.append_assoc]
          simp [Reader.fields, nextField_close ha, bind, Except.bind, Fields.ofList]
  | @someFields depth a s t name v fs ha hs ht ihs iht =>
      intro fuel rest hfuel _
      simp only [List.length_cons, List.length_append] at hfuel
      cases fuel with
      | zero => cases hfuel
      | succ fuel =>
          rcases ihs with ⟨s, rfl, hfield⟩
          rcases hfield (fuel + 1) (t ++ rest) (by omega) (ht.fields_stops rest) with
            ⟨s₁, s₂, hname, hcolon, hvalue⟩
          have hfields := iht (fuel + 1) fuel rest (by omega) (by omega)
          rw [List.cons_append, value_object, List.append_assoc, List.append_assoc,
            List.cons_append]
          simp [Reader.fields, nextField_true ha, hname, hcolon, hvalue, hfields, bind,
            Except.bind]
  | @endOfFields depth a ha =>
      intro fuel count rest _ hcount
      cases count with
      | zero => simp at hcount
      | succ count =>
          rw [List.append_assoc]
          simp [Reader.fields, nextField_close ha, bind, Except.bind]
  | @nextField depth a b s t name v fs ha hb hs ht ihs iht =>
      intro fuel count rest hfuel hcount
      simp only [List.length_cons, List.length_append] at hfuel hcount
      cases count with
      | zero => omega
      | succ count =>
          rcases ihs with ⟨s, rfl, hfield⟩
          rcases hfield fuel (t ++ rest) (by omega) (ht.fields_stops rest) with
            ⟨s₁, s₂, hname, hcolon, hvalue⟩
          have hfields := iht fuel count rest (by omega) (by omega)
          simp only [List.append_assoc, List.cons_append]
          simp [Reader.fields, nextField_false ha hb, hname, hcolon, hvalue, hfields, bind,
            Except.bind]

/-! ## What the reader takes, the rules derive -/

theorem eq_append_of_word {letters s rest : Bytes} {v v' : Json}
    (h : Reader.word letters v s = .ok (v', rest)) : v' = v ∧ s = letters ++ rest := by
  induction letters generalizing s with
  | nil =>
      cases h
      exact ⟨rfl, rfl⟩
  | cons letter letters ih =>
      cases s with
      | nil => cases h
      | cons b s =>
          simp only [Reader.word] at h
          split at h
          · next hletter =>
              rcases ih h with ⟨hv, hs⟩
              exact ⟨hv, by rw [← eq_of_beq hletter, hs]; rfl⟩
          · cases h

theorem exists_of_nextItem_closed {first : Bool} {s s' : Bytes}
    (h : Reader.nextItem first s = .ok (.closed s')) :
    exists a, Space a ∧ s = a ++ 0x5d :: s' := by
  rcases exists_space s with ⟨a, hs, ha⟩
  refine ⟨a, ha, ?_⟩
  rw [Reader.nextItem] at h
  rw [hs]
  split at h
  · cases h
  · next b t hskip =>
      split at h
      · next hclose =>
          cases h
          rw [hskip, eq_of_beq hclose]
      · repeat' split at h
        all_goals cases h

theorem exists_of_nextItem_first {s s' : Bytes}
    (h : Reader.nextItem true s = .ok (.member s')) : exists a, Space a ∧ s = a ++ s' := by
  rcases exists_space s with ⟨a, hs, ha⟩
  refine ⟨a, ha, ?_⟩
  rw [Reader.nextItem] at h
  split at h
  · cases h
  · next b t hskip =>
      split at h
      · cases h
      · simp only [if_true] at h
        cases h
        rw [← hskip]
        exact hs

theorem exists_of_nextItem_member {s s' : Bytes}
    (h : Reader.nextItem false s = .ok (.member s')) :
    exists a b, Space a ∧ Space b ∧ s = a ++ 0x2c :: (b ++ s') := by
  rcases exists_space s with ⟨a, hs, ha⟩
  rw [Reader.nextItem] at h
  split at h
  · cases h
  · next x t hskip =>
      rcases exists_space t with ⟨b, ht, hb⟩
      refine ⟨a, b, ha, hb, ?_⟩
      split at h
      · cases h
      · simp only [Bool.false_eq_true, if_false] at h
        split at h
        · next hcomma =>
            split at h
            · cases h
            · next c t' hskip' =>
                split at h
                · cases h
                · cases h
                  rw [← hskip', ← ht, ← eq_of_beq hcomma, ← hskip]
                  exact hs
        · cases h

theorem exists_of_nextField_closed {first : Bool} {s s' : Bytes}
    (h : Reader.nextField first s = .ok (.closed s')) :
    exists a, Space a ∧ s = a ++ 0x7d :: s' := by
  rcases exists_space s with ⟨a, hs, ha⟩
  refine ⟨a, ha, ?_⟩
  rw [Reader.nextField] at h
  rw [hs]
  split at h
  · cases h
  · next b t hskip =>
      split at h
      · next hclose =>
          cases h
          rw [hskip, eq_of_beq hclose]
      · repeat' split at h
        all_goals cases h

theorem exists_of_nextField_first {s s' : Bytes}
    (h : Reader.nextField true s = .ok (.member s')) :
    exists a, Space a ∧ s = a ++ 0x22 :: s' := by
  rcases exists_space s with ⟨a, hs, ha⟩
  refine ⟨a, ha, ?_⟩
  rw [Reader.nextField] at h
  split at h
  · cases h
  · next b t hskip =>
      split at h
      · cases h
      · simp only [if_true] at h
        split at h
        · next hquote =>
            cases h
            rw [← eq_of_beq hquote, ← hskip]
            exact hs
        · cases h

theorem exists_of_nextField_member {s s' : Bytes}
    (h : Reader.nextField false s = .ok (.member s')) :
    exists a b, Space a ∧ Space b ∧ s = a ++ 0x2c :: (b ++ 0x22 :: s') := by
  rcases exists_space s with ⟨a, hs, ha⟩
  rw [Reader.nextField] at h
  split at h
  · cases h
  · next x t hskip =>
      rcases exists_space t with ⟨b, ht, hb⟩
      refine ⟨a, b, ha, hb, ?_⟩
      split at h
      · cases h
      · simp only [Bool.false_eq_true, if_false] at h
        split at h
        · next hcomma =>
            split at h
            · cases h
            · next c t' hskip' =>
                split at h
                · next hquote =>
                    cases h
                    rw [← eq_of_beq hquote, ← hskip', ← ht, ← eq_of_beq hcomma, ← hskip]
                    exact hs
                · split at h
                  all_goals cases h
        · cases h

theorem exists_of_colon {s s' : Bytes} (h : Reader.colon s = .ok s') :
    exists a, Space a ∧ s = a ++ 0x3a :: s' := by
  rcases exists_space s with ⟨a, hs, ha⟩
  refine ⟨a, ha, ?_⟩
  rw [Reader.colon] at h
  split at h
  · cases h
  · next b t hskip =>
      split at h
      · next hcolon =>
          cases h
          rw [← eq_of_beq hcolon, ← hskip]
          exact hs
      · cases h

section Members

variable {fuel depth : Nat}

/-- What a successful reading of a document at this depth took is a document. -/
def ValuesWritten (fuel depth : Nat) : Prop :=
  forall s v rest, Reader.value fuel depth s = .ok (v, rest) -> Number.Stops rest ->
    exists a t, s = a ++ (t ++ rest) ∧ Space a ∧ Written depth (.value v) t

variable (hvalues : ValuesWritten fuel depth)

include hvalues

theorem written_of_items {count : Nat} {s rest : Bytes} {vs : List Json}
    (h : Reader.items (Reader.value fuel depth) count false s = .ok (vs, rest)) :
    exists t, s = t ++ rest ∧ Written depth (.items vs) t := by
  induction count generalizing s vs with
  | zero => cases h
  | succ count ih =>
      rcases exists_ok_of_bind h with ⟨next, hnext, hmember⟩
      cases next with
      | closed s' =>
          cases hmember
          rcases exists_of_nextItem_closed hnext with ⟨a, ha, rfl⟩
          exact ⟨a ++ [0x5d], by simp, .endOfItems ha⟩
      | member s' =>
          rcases exists_ok_of_bind hmember with ⟨⟨v, s₁⟩, hvalue, hitems⟩
          rcases exists_ok_of_bind hitems with ⟨⟨vs', rest'⟩, hmore, hout⟩
          cases hout
          rcases ih hmore with ⟨t, hs₁, ht⟩
          have hstops := ht.items_stops rest
          rw [← hs₁] at hstops
          rcases hvalues _ _ _ hvalue hstops with ⟨c, text, hs', hc, htext⟩
          rcases exists_of_nextItem_member hnext with ⟨a, b, ha, hb, hs⟩
          refine ⟨a ++ 0x2c :: ((b ++ c) ++ (text ++ t)), ?_,
            .nextItem ha (hb.append hc) htext ht⟩
          have hs₁' : s₁ = t ++ rest := hs₁
          simp [hs, hs', hs₁']

theorem written_of_list {count : Nat} {s rest : Bytes} {vs : List Json}
    (h : Reader.items (Reader.value fuel depth) count true s = .ok (vs, rest)) :
    exists t, s = t ++ rest ∧ Written (depth + 1) (.value (.array vs)) (0x5b :: t) := by
  cases count with
  | zero => cases h
  | succ count =>
      rcases exists_ok_of_bind h with ⟨next, hnext, hmember⟩
      cases next with
      | closed s' =>
          cases hmember
          rcases exists_of_nextItem_closed hnext with ⟨a, ha, rfl⟩
          exact ⟨a ++ [0x5d], by simp, .noItems ha⟩
      | member s' =>
          rcases exists_ok_of_bind hmember with ⟨⟨v, s₁⟩, hvalue, hitems⟩
          rcases exists_ok_of_bind hitems with ⟨⟨vs', rest'⟩, hmore, hout⟩
          cases hout
          rcases written_of_items hvalues hmore with ⟨t, hs₁, ht⟩
          have hstops := ht.items_stops rest
          rw [← hs₁] at hstops
          rcases hvalues _ _ _ hvalue hstops with ⟨c, text, hs', hc, htext⟩
          rcases exists_of_nextItem_first hnext with ⟨a, ha, hs⟩
          refine ⟨(a ++ c) ++ (text ++ t), ?_, .someItems (ha.append hc) htext ht⟩
          have hs₁' : s₁ = t ++ rest := hs₁
          simp [hs, hs', hs₁']

theorem written_of_field {s s₁ s₂ rest : Bytes} {name : String} {v : Json}
    (hname : Reader.string fuel s = .ok (name, s₁)) (hcolon : Reader.colon s₁ = .ok s₂)
    (hvalue : Reader.value fuel depth s₂ = .ok (v, rest)) (hrest : Number.Stops rest) :
    exists t, s = t ++ rest ∧ Written depth (.field name v) (0x22 :: t) := by
  rcases exists_quoted_of_string hname with ⟨q, rfl, hq⟩
  rcases exists_of_colon hcolon with ⟨a, ha, rfl⟩
  rcases hvalues _ _ _ hvalue hrest with ⟨b, text, rfl, hb, htext⟩
  exact ⟨q ++ (a ++ 0x3a :: (b ++ text)), by simp, .field hq ha hb htext⟩

theorem written_of_fields {count : Nat} {s rest : Bytes} {fs : List (String × Json)}
    (h : Reader.fields (Reader.string fuel) (Reader.value fuel depth) count false s =
      .ok (fs, rest)) :
    exists t, s = t ++ rest ∧ Written depth (.fields fs) t := by
  induction count generalizing s fs with
  | zero => cases h
  | succ count ih =>
      rcases exists_ok_of_bind h with ⟨next, hnext, hmember⟩
      cases next with
      | closed s' =>
          cases hmember
          rcases exists_of_nextField_closed hnext with ⟨a, ha, rfl⟩
          exact ⟨a ++ [0x7d], by simp, .endOfFields ha⟩
      | member s' =>
          rcases exists_ok_of_bind hmember with ⟨⟨name, s₁⟩, hname, hafter⟩
          rcases exists_ok_of_bind hafter with ⟨s₂, hcolon, hafter⟩
          rcases exists_ok_of_bind hafter with ⟨⟨v, s₃⟩, hvalue, hafter⟩
          rcases exists_ok_of_bind hafter with ⟨⟨fs', rest'⟩, hmore, hout⟩
          cases hout
          rcases ih hmore with ⟨t, hs₃, ht⟩
          have hstops := ht.fields_stops rest
          rw [← hs₃] at hstops
          rcases written_of_field hvalues hname hcolon hvalue hstops with ⟨text, hs', htext⟩
          rcases exists_of_nextField_member hnext with ⟨a, b, ha, hb, hs⟩
          refine ⟨a ++ 0x2c :: (b ++ (0x22 :: text ++ t)), ?_, .nextField ha hb htext ht⟩
          have hs₃' : s₃ = t ++ rest := hs₃
          simp [hs, hs', hs₃']

theorem written_of_object {count : Nat} {s rest : Bytes} {fs : List (String × Json)}
    (h : Reader.fields (Reader.string fuel) (Reader.value fuel depth) count true s =
      .ok (fs, rest)) :
    exists t, s = t ++ rest ∧
      Written (depth + 1) (.value (.object (Fields.ofList fs))) (0x7b :: t) := by
  cases count with
  | zero => cases h
  | succ count =>
      rcases exists_ok_of_bind h with ⟨next, hnext, hmember⟩
      cases next with
      | closed s' =>
          cases hmember
          rcases exists_of_nextField_closed hnext with ⟨a, ha, rfl⟩
          exact ⟨a ++ [0x7d], by simp, .noFields ha⟩
      | member s' =>
          rcases exists_ok_of_bind hmember with ⟨⟨name, s₁⟩, hname, hafter⟩
          rcases exists_ok_of_bind hafter with ⟨s₂, hcolon, hafter⟩
          rcases exists_ok_of_bind hafter with ⟨⟨v, s₃⟩, hvalue, hafter⟩
          rcases exists_ok_of_bind hafter with ⟨⟨fs', rest'⟩, hmore, hout⟩
          cases hout
          rcases written_of_fields hvalues hmore with ⟨t, hs₃, ht⟩
          have hstops := ht.fields_stops rest
          rw [← hs₃] at hstops
          rcases written_of_field hvalues hname hcolon hvalue hstops with ⟨text, hs', htext⟩
          rcases exists_of_nextField_first hnext with ⟨a, ha, hs⟩
          refine ⟨a ++ (0x22 :: text ++ t), ?_, .someFields ha htext ht⟩
          have hs₃' : s₃ = t ++ rest := hs₃
          simp [hs, hs', hs₃']

end Members

theorem written_of_value_cons {fuel depth : Nat}
    (hbelow : forall d, d < depth -> ValuesWritten fuel d)
    {b : UInt8} {t rest : Bytes} {v : Json} (hspace : Reader.isSpace b = false)
    (h : Reader.value fuel depth (b :: t) = .ok (v, rest)) (hrest : Number.Stops rest) :
    exists text, b :: t = text ++ rest ∧ Written depth (.value v) text := by
  have hskip : Reader.skipSpace (b :: t) = b :: t := space_nil.skipSpace_append t hspace
  rw [Reader.value, hskip] at h
  dsimp only at h
  split at h
  · next hb =>
      rcases eq_append_of_word h with ⟨rfl, rfl⟩
      rw [eq_of_beq hb]
      exact ⟨[0x6e, 0x75, 0x6c, 0x6c], rfl, .null⟩
  split at h
  · next hb =>
      rcases eq_append_of_word h with ⟨rfl, rfl⟩
      rw [eq_of_beq hb]
      exact ⟨[0x74, 0x72, 0x75, 0x65], rfl, .yes⟩
  split at h
  · next hb =>
      rcases eq_append_of_word h with ⟨rfl, rfl⟩
      rw [eq_of_beq hb]
      exact ⟨[0x66, 0x61, 0x6c, 0x73, 0x65], rfl, .no⟩
  split at h
  · next hb =>
      rcases Number.exists_digits_of_read h hrest with ⟨digits, rfl, hdigits⟩
      rw [eq_of_beq hb]
      exact ⟨0x2d :: digits, rfl, .negative hdigits⟩
  split at h
  · next hdigit =>
      rcases Number.exists_digits_of_read h hrest with ⟨digits, hs, hdigits⟩
      refine ⟨digits, hs, ?_⟩
      cases digits with
      | nil => cases hdigits.reads
      | cons c digits =>
          cases hs
          exact .number hdigit hdigits
  split at h
  · next hb =>
      rcases exists_ok_of_bind h with ⟨⟨name, s₁⟩, hname, hout⟩
      cases hout
      rcases exists_quoted_of_string hname with ⟨q, rfl, hq⟩
      rw [eq_of_beq hb]
      exact ⟨0x22 :: q, rfl, .text hq⟩
  split at h
  · next hb =>
      rw [eq_of_beq hb]
      cases depth with
      | zero => cases h
      | succ depth =>
          rcases exists_ok_of_bind h with ⟨⟨vs, s₁⟩, hitems, hout⟩
          cases hout
          have hvalues := hbelow depth (Nat.lt_succ_self depth)
          rcases written_of_list hvalues hitems with ⟨text, rfl, htext⟩
          exact ⟨0x5b :: text, rfl, htext⟩
  split at h
  · next hb =>
      rw [eq_of_beq hb]
      cases depth with
      | zero => cases h
      | succ depth =>
          rcases exists_ok_of_bind h with ⟨⟨fs, s₁⟩, hfields, hout⟩
          cases hout
          have hvalues := hbelow depth (Nat.lt_succ_self depth)
          rcases written_of_object hvalues hfields with ⟨text, rfl, htext⟩
          exact ⟨0x7b :: text, rfl, htext⟩
  · cases h

/-- Whatever the reader takes from the front of a text is derived by the rules. -/
theorem valuesWritten (fuel depth : Nat) : ValuesWritten fuel depth := by
  induction depth using Nat.strongRecOn with
  | ind depth ih =>
      intro s v rest h hrest
      rcases exists_space s with ⟨a, hs, ha⟩
      rw [hs, ha.value_append] at h
      cases hskip : Reader.skipSpace s with
      | nil =>
          rw [hskip, Reader.value] at h
          cases h
      | cons b t =>
          rw [hskip] at h hs
          have hspace := isSpace_of_skipSpace_eq_cons hskip
          rcases written_of_value_cons ih hspace h hrest with ⟨text, ht, htext⟩
          exact ⟨a, text, by rw [hs, ht], ha, htext⟩

/-! ## Whole texts -/

theorem finish_eq_ok_iff (s : Bytes) : Reader.finish s = .ok () ↔ Space s := by
  constructor
  · intro h
    rcases exists_space s with ⟨a, hs, ha⟩
    rw [Reader.finish] at h
    split at h
    · next hskip =>
        rw [hs, hskip, List.append_nil]
        exact ha
    · cases h
  · intro h
    rw [Reader.finish, h.skipSpace_eq_nil]

theorem document_eq_ok_iff (text : Bytes) (v : Json) :
    Reader.document text = .ok v ↔ Writes text v := by
  constructor
  · intro h
    rcases exists_ok_of_bind h with ⟨⟨v', s⟩, hvalue, hafter⟩
    rcases exists_ok_of_bind hafter with ⟨u, hfinish, hout⟩
    cases hout
    have hspace : Space s := (finish_eq_ok_iff s).1 hfinish
    rcases valuesWritten _ _ _ _ _ hvalue hspace.stops_self with ⟨a, t, htext, ha, ht⟩
    exact ⟨a, t, s, htext, ha, hspace, ht⟩
  · rintro ⟨a, s, b, rfl, ha, hb, hs⟩
    have hvalue :
        Reader.value (a ++ (s ++ b)).length Reader.deepest (a ++ (s ++ b)) = .ok (v, b) := by
      rw [ha.value_append]
      exact hs.taken _ b (by simp only [List.length_append]; omega) hb.stops_self
    rw [Reader.document, hvalue]
    simp [bind, Except.bind, (finish_eq_ok_iff b).2 hb]

/-- The reader accepts just the texts that the rules derive. -/
theorem ofBytes_eq_ok_iff (text : Bytes) (v : Json) :
    ofBytes text = .ok v ↔ Writes text v := by
  rw [← document_eq_ok_iff, ofBytes]
  cases Reader.document text with
  | ok v' => simp
  | error stop => simp

end Json
end SurfaceFeed
