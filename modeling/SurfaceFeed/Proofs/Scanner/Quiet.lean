import SurfaceFeed.Proofs.Scanner.Documents

/-!
# Places without an object

## Before any object

Until an object opens in a list, the scanner is outside lists or in one that it
may still pass over.  It has signalled nothing then, and it does not come back
to such a place once an object has opened.
-/

namespace SurfaceFeed

namespace Place

/-- No object has opened in a list so far. -/
inductive Fresh : Place -> Prop where
  | outside {held : Bytes} : Fresh (.outside held)
  | list {held : Bytes} : Fresh (.list held false)

theorem Fresh.cases {p : Place} (h : p.Fresh) :
    (exists held, p = .outside held) ∨ exists held, p = .list held false := by
  cases h with
  | outside => exact .inl ⟨_, rfl⟩
  | list => exact .inr ⟨_, rfl⟩

theorem Fresh.hold {p : Place} (h : p.Fresh) (b : UInt8) : (p.hold b).Fresh := by
  cases h with
  | outside => exact .outside
  | list => exact .list

theorem Fresh.of_hold {p : Place} {b : UInt8} (h : (p.hold b).Fresh) : p.Fresh := by
  cases p with
  | outside held => exact .outside
  | list held anyObject =>
      cases anyObject with
      | false => exact .list
      | true => cases h
  | object held depth => cases h
  | closed => cases h

theorem Fresh.turn {p : Place} (h : p.Fresh) {b : UInt8} (hb : b ≠ 0x7b) :
    (p.turn b).1.Fresh ∧ (p.turn b).2 = none := by
  cases h with
  | @outside held =>
      by_cases hopen : b = 0x5b
      · subst hopen
        exact ⟨.list, rfl⟩
      · have hturn : (Place.outside held).turn b = (.outside held, none) := by
          simp [Place.turn, hopen]
        rw [hturn]
        exact ⟨.outside, rfl⟩
  | @list held =>
      by_cases hclose : b = 0x5d
      · subst hclose
        exact ⟨.outside, rfl⟩
      · have hturn : (Place.list held false).turn b = (.list held false, none) := by
          simp [Place.turn, hclose, hb]
        rw [hturn]
        exact ⟨.list, rfl⟩

theorem Fresh.of_turn {p : Place} {b : UInt8} (h : (p.turn b).1.Fresh) :
    p.Fresh ∧ (p.turn b).2 = none := by
  cases p with
  | outside held => exact ⟨.outside, rfl⟩
  | list held anyObject =>
      cases anyObject with
      | true =>
          simp only [Place.turn, if_true] at h
          repeat' split at h
          all_goals cases h
      | false =>
          refine ⟨.list, ?_⟩
          dsimp only [Place.turn]
          cases b == 0x5d with
          | true => rfl
          | false => cases b == 0x7b <;> rfl
  | object held depth =>
      simp only [Place.turn] at h
      repeat' split at h
      all_goals cases h
  | closed => cases h

end Place

namespace Scanner

theorem fresh_scan {s : Scanner} (h : s.place.Fresh) {text : Bytes} (hopen : 0x7b ∉ text) :
    (s.scan text).1.place.Fresh ∧ (s.scan text).2 = [] := by
  induction text generalizing s with
  | nil => exact ⟨h, rfl⟩
  | cons b text ih =>
      simp only [List.mem_cons, not_or] at hopen
      have hheld := h.hold b
      have hstep : (s.step b).1.place.Fresh ∧ (s.step b).2 = none := by
        rcases s with ⟨lexical, place⟩
        cases lexical with
        | plain => exact hheld.turn (Ne.symm hopen.1)
        | quoted => exact ⟨hheld, rfl⟩
        | escaped => exact ⟨hheld, rfl⟩
      rcases ih hstep.1 hopen.2 with ⟨hfresh, hsignals⟩
      rw [scan_cons, hstep.2, hsignals]
      exact ⟨hfresh, rfl⟩

/-- What leads to a fresh place has signalled nothing. -/
theorem fresh_of_scan {s : Scanner} {text : Bytes} (h : (s.scan text).1.place.Fresh) :
    s.place.Fresh ∧ (s.scan text).2 = [] := by
  induction text generalizing s with
  | nil => exact ⟨h, rfl⟩
  | cons b text ih =>
      rw [scan_cons] at h
      rcases ih h with ⟨hfresh, hsignals⟩
      have hstep : s.place.Fresh ∧ (s.step b).2 = none := by
        rcases s with ⟨lexical, place⟩
        cases lexical with
        | plain =>
            rcases Place.Fresh.of_turn hfresh with ⟨hheld, hnone⟩
            exact ⟨hheld.of_hold, hnone⟩
        | quoted => exact ⟨hfresh.of_hold, rfl⟩
        | escaped => exact ⟨hfresh.of_hold, rfl⟩
      rw [scan_cons, hstep.2, hsignals]
      exact ⟨hstep.1, rfl⟩

theorem exists_list_of_gap {p : Place} (h : p.Fresh) {a b : Bytes} (ha : Json.Space a)
    (hb : Json.Space b) : exists held,
      (scan ⟨.plain, p⟩ (a ++ 0x5b :: b)).1 = ⟨.plain, .list held false⟩ := by
  have hopen : forall q : Place, q.Fresh -> exists held,
      step ⟨.plain, q⟩ 0x5b = (⟨.plain, .list held false⟩, none) := by
    intro q hq
    cases hq with
    | outside => exact ⟨_, rfl⟩
    | list => exact ⟨_, rfl⟩
  have hspace := inert_space ha p
  have hfresh : (p.holdAll a).Fresh := by
    cases h with
    | @outside held =>
        rcases Place.exists_holdAll_outside held a with ⟨held', hheld'⟩
        rw [hheld']
        exact .outside
    | @list held =>
        rcases Place.exists_holdAll_list held a false with ⟨held', hheld'⟩
        rw [hheld']
        exact .list
  rcases hopen _ hfresh with ⟨held, hstep⟩
  rcases Place.exists_holdAll_list held b false with ⟨held', hheld'⟩
  refine ⟨held', ?_⟩
  rw [scan_append_of_eq hspace, scan_cons, hstep, inert_space hb, hheld']

/-! ## Where a document leaves the scanner

A list that a document opens it also closes.  So a document that begins outside
lists ends there, or after the list whose objects were signalled.
-/

/-- A text leads from places of one kind to places of another. -/
def Leads (before after : Place -> Prop) (text : Bytes) : Prop :=
  forall p, before p -> exists p', after p' ∧ (scan ⟨.plain, p⟩ text).1 = ⟨.plain, p'⟩

inductive Outer : Place -> Prop where
  | outside {held : Bytes} : Outer (.outside held)
  | closed : Outer .closed

inductive Idle : Place -> Prop where
  | list {held : Bytes} {anyObject : Bool} : Idle (.list held anyObject)
  | outer {p : Place} : Outer p -> Idle p

theorem Outer.holdAll {p : Place} (h : Outer p) (text : Bytes) : Outer (p.holdAll text) := by
  cases h with
  | @outside held =>
      rcases Place.exists_holdAll_outside held text with ⟨held', hheld'⟩
      rw [hheld']
      exact .outside
  | closed =>
      rw [Place.holdAll_closed]
      exact .closed

theorem Idle.holdAll {p : Place} (h : Idle p) (text : Bytes) : Idle (p.holdAll text) := by
  cases h with
  | @list held anyObject =>
      rcases Place.exists_holdAll_list held text anyObject with ⟨held', hheld'⟩
      rw [hheld']
      exact .list
  | outer hp => exact .outer (hp.holdAll text)

theorem Leads.append {P Q R : Place -> Prop} {a b : Bytes} (ha : Leads P Q a)
    (hb : Leads Q R b) : Leads P R (a ++ b) := by
  intro p hp
  rcases ha p hp with ⟨p', hp', hscan⟩
  rcases hb p' hp' with ⟨p'', hp'', hscan'⟩
  refine ⟨p'', hp'', ?_⟩
  rw [scan_append, hscan]
  exact hscan'

theorem Inert.outer {text : Bytes} (h : Inert text) : Leads Outer Outer text := by
  intro p hp
  exact ⟨_, hp.holdAll text, congrArg Prod.fst (h p)⟩

theorem Inert.idle {text : Bytes} (h : Inert text) : Leads Idle Idle text := by
  intro p hp
  exact ⟨_, hp.holdAll text, congrArg Prod.fst (h p)⟩

theorem leads_open : Leads Idle Idle [0x5b] := by
  intro p hp
  cases hp with
  | list => exact ⟨_, .list, rfl⟩
  | outer hp =>
      cases hp with
      | outside => exact ⟨_, .list, rfl⟩
      | closed => exact ⟨_, .outer .closed, rfl⟩

theorem leads_close : Leads Idle Outer [0x5d] := by
  intro p hp
  cases hp with
  | @list held anyObject =>
      cases anyObject with
      | true => exact ⟨_, .closed, rfl⟩
      | false => exact ⟨_, .outside, rfl⟩
  | outer hp =>
      cases hp with
      | outside => exact ⟨_, .outside, rfl⟩
      | closed => exact ⟨_, .closed, rfl⟩

theorem leads_brace {b : UInt8} (hb : b = 0x7b ∨ b = 0x7d) : Leads Outer Outer [b] := by
  intro p hp
  rcases hb with rfl | rfl
  · cases hp with
    | outside => exact ⟨_, .outside, rfl⟩
    | closed => exact ⟨_, .closed, rfl⟩
  · cases hp with
    | outside => exact ⟨_, .outside, rfl⟩
    | closed => exact ⟨_, .closed, rfl⟩

def PartLeads (text : Bytes) : Json.Part -> Prop
  | .value _ => Leads Idle Idle text ∧ Leads Outer Outer text
  | .items _ => Leads Idle Outer text
  | .field _ _ | .fields _ => Leads Outer Outer text

theorem Inert.leads {text : Bytes} (h : Inert text) (v : Json) : PartLeads text (.value v) :=
  ⟨h.idle, h.outer⟩

theorem Leads.of_list {text : Bytes} (h : Leads Idle Outer text) (v : Json) :
    PartLeads text (.value v) := by
  constructor
  · intro p hp
    rcases h p hp with ⟨p', hp', hscan⟩
    exact ⟨p', .outer hp', hscan⟩
  · intro p hp
    exact h p (.outer hp)

theorem Leads.of_object {depth : Nat} {fields : List (String × Json)} {text : Bytes}
    (hwritten : Json.Written depth (.value (.object fields)) text)
    (h : Leads Outer Outer text) : PartLeads text (.value (.object fields)) := by
  refine ⟨?_, h⟩
  intro p hp
  cases hp with
  | @list held anyObject =>
      rcases exists_braced_of_object hwritten with ⟨body, rfl, hneutral⟩
      exact ⟨_, .list, congrArg Prod.fst (scan_braced hneutral held anyObject).2⟩
  | outer hp =>
      rcases h p hp with ⟨p', hp', hscan⟩
      exact ⟨p', .outer hp', hscan⟩

theorem leads_of_written {depth : Nat} {part : Json.Part} {text : Bytes}
    (h : Json.Written depth part text) : PartLeads text part := by
  induction h with
  | null => exact Inert.leads (inert_of_forall (forall_mem_of_all rfl)) _
  | yes => exact Inert.leads (inert_of_forall (forall_mem_of_all rfl)) _
  | no => exact Inert.leads (inert_of_forall (forall_mem_of_all rfl)) _
  | negative hdigits =>
      exact Inert.leads ((inert_singleton rfl).append (inert_digits hdigits)) _
  | number _ hdigits => exact (inert_digits hdigits).leads _
  | text hq => exact (inert_quoted hq).leads _
  | noItems ha =>
      exact Leads.of_list (leads_open.append ((inert_space ha).idle.append leads_close)) _
  | someItems ha _ _ ihs iht =>
      have hinside := (inert_space ha).idle.append (ihs.1.append iht)
      exact Leads.of_list (leads_open.append hinside) _
  | endOfItems ha => exact (inert_space ha).idle.append leads_close
  | nextItem ha hb _ _ ihs iht =>
      exact (inert_space ha).idle.append ((inert_comma hb).idle.append (ihs.1.append iht))
  | field hq ha hb _ ihs =>
      exact (inert_quoted hq).outer.append
        ((inert_space ha).outer.append ((inert_colon hb).outer.append ihs.2))
  | @noFields depth a ha =>
      have hinside := (inert_space ha).outer.append (leads_brace (.inr rfl))
      exact @Leads.of_object (depth + 1) _ _ (.noFields ha)
        (Leads.append (leads_brace (.inl rfl)) hinside)
  | someFields ha hs ht ihs iht =>
      have hinside := (inert_space ha).outer.append (Leads.append ihs iht)
      exact Leads.of_object (.someFields ha hs ht)
        (Leads.append (leads_brace (.inl rfl)) hinside)
  | endOfFields ha => exact (inert_space ha).outer.append (leads_brace (.inr rfl))
  | nextField ha hb _ _ ihs iht =>
      exact (inert_space ha).outer.append
        ((inert_comma hb).outer.append (Leads.append ihs iht))

/-- A document leaves the scanner outside lists, or after the list with objects. -/
theorem outer_of_writes {text : Bytes} {v : Json} (h : Json.Writes text v) :
    exists p, Outer p ∧ (start.scan text).1 = ⟨.plain, p⟩ := by
  rcases h with ⟨a, s, b, rfl, ha, hb, hs⟩
  have hleads := (inert_space ha).outer.append
    ((leads_of_written hs).2.append (inert_space hb).outer)
  exact hleads _ .outside

end Scanner
end SurfaceFeed
