import SurfaceFeed.Proofs.History

/-!
# Data and surface traffic

## The two halves of a session

A message that writes to the model reads and changes the model alone; every
other message reads and changes the surface and the rendering flag alone.  The
two kinds share only the counter, which is a sum.  So a session cannot tell in
which order they came, as long as each kind keeps its own order.
-/

namespace SurfaceFeed

/-- The third list takes its elements from the other two, and keeps the order of each. -/
inductive Interleaving {α : Type} : List α -> List α -> List α -> Prop where
  | nil : Interleaving [] [] []
  | left {as bs cs : List α} (a : α) :
      Interleaving as bs cs -> Interleaving (a :: as) bs (a :: cs)
  | right {as bs cs : List α} (b : α) :
      Interleaving as bs cs -> Interleaving as (b :: bs) (b :: cs)

namespace Session

/-- Agreement on what messages about the surface read and change. -/
structure SameSurface (s t : Session) : Prop where
  surface : s.surface = t.surface
  isRendering : s.isRendering = t.isRendering

variable {s t : Session} {m : Message} {result : Except WriteError Outcome}

theorem SameSurface.symm (h : SameSurface s t) : SameSurface t s :=
  ⟨h.surface.symm, h.isRendering.symm⟩

theorem SameSurface.trans {s t u : Session} (hst : SameSurface s t) (htu : SameSurface t u) :
    SameSurface s u :=
  ⟨hst.surface.trans htu.surface, hst.isRendering.trans htu.isRendering⟩

theorem SameSurface.eq (h : SameSurface s t) (hmodel : s.model = t.model)
    (hcount : s.appliedCount = t.appliedCount) : s = t := by
  cases s
  cases t
  rcases h with ⟨hsurface, hrendering⟩
  exact (Session.mk.injEq ..).mpr ⟨hsurface, hmodel, hrendering, hcount⟩

/-! ## What one message leaves alone -/

theorem Step.sameSurface (hstep : Step s m t result) (hm : m.kind = .dataModelUpdate) :
    SameSurface t s := by
  cases hstep with
  | updated | failed => exact ⟨rfl, rfl⟩
  | replaced | deleted | started | ignoredDelete | ignoredBegin => cases hm

theorem Step.model (hstep : Step s m t result) (hm : m.kind ≠ .dataModelUpdate) :
    t.model = s.model := by
  cases hstep with
  | updated | failed => exact absurd rfl hm
  | replaced | deleted | started | ignoredDelete | ignoredBegin => rfl

/-! ## What one message depends on -/

theorem apply_write_congr (hm : m.kind = .dataModelUpdate) (hmodel : s.model = t.model) :
    (s.apply m).2 = (t.apply m).2 ∧ (s.apply m).1.model = (t.apply m).1.model := by
  cases m with
  | surfaceUpdate | deleteSurface | beginRendering => cases hm
  | dataModelUpdate path data =>
      have hwrite : s.write path data = t.write path data := by
        rw [write, write, hmodel]
      rw [apply, apply, hwrite]
      cases t.write path data with
      | ok model => exact ⟨rfl, rfl⟩
      | error e => exact ⟨rfl, hmodel⟩

theorem SameSurface.isActive (h : SameSurface s t) (surfaceId : String) :
    s.isActive surfaceId = t.isActive surfaceId := by
  rw [Session.isActive, Session.isActive, h.surface]

theorem SameSurface.apply_congr (h : SameSurface s t) (hm : m.kind ≠ .dataModelUpdate) :
    (s.apply m).2 = (t.apply m).2 ∧ SameSurface (s.apply m).1 (t.apply m).1 := by
  cases m with
  | dataModelUpdate path data => exact absurd rfl hm
  | surfaceUpdate surface => exact ⟨rfl, rfl, h.isRendering⟩
  | deleteSurface surfaceId =>
      rw [apply, apply, h.isActive surfaceId]
      cases t.isActive surfaceId with
      | true => exact ⟨rfl, rfl, rfl⟩
      | false => exact ⟨rfl, h⟩
  | beginRendering surfaceId =>
      cases surfaceId with
      | none => exact ⟨rfl, h.surface, rfl⟩
      | some surfaceId =>
          rw [apply, apply, h.isActive surfaceId]
          cases t.isActive surfaceId with
          | true => exact ⟨rfl, h.surface, rfl⟩
          | false => exact ⟨rfl, h⟩

/-! ## Interleaved lists -/

section Lists

variable {writes traffic ms ns : List Message}

/-- A run over both kinds is the run over each kind, from any session that agrees on its half. -/
theorem applyAll_halves (hms : Interleaving writes traffic ms)
    (hwrites : forall m, m ∈ writes -> m.kind = .dataModelUpdate)
    (htraffic : forall m, m ∈ traffic -> m.kind ≠ .dataModelUpdate)
    {s d t : Session} (hmodel : s.model = d.model) (hsurface : SameSurface s t) :
    (s.applyAll ms).1.model = (d.applyAll writes).1.model ∧
      SameSurface (s.applyAll ms).1 (t.applyAll traffic).1 ∧
      (s.applyAll ms).2 = (d.applyAll writes).2 + (t.applyAll traffic).2 := by
  induction hms generalizing s d t with
  | nil => exact ⟨hmodel, hsurface, rfl⟩
  | left m hms ih =>
      have hm := hwrites m List.mem_cons_self
      have hrest := fun n hn => hwrites n (List.mem_cons_of_mem m hn)
      rcases apply_write_congr hm hmodel with ⟨hresult, hmodel'⟩
      have hsurface' := ((step_apply s m).sameSurface hm).trans hsurface
      rcases ih hrest htraffic hmodel' hsurface' with ⟨hends, hshows, hcount⟩
      refine ⟨hends, hshows, ?_⟩
      rw [applyAll_cons, applyAll_cons, hcount, hresult, Nat.add_assoc]
  | right m hms ih =>
      have hm := htraffic m List.mem_cons_self
      have hrest := fun n hn => htraffic n (List.mem_cons_of_mem m hn)
      rcases hsurface.apply_congr hm with ⟨hresult, hsurface'⟩
      have hmodel' := ((step_apply s m).model hm).trans hmodel
      rcases ih hwrites hrest hmodel' hsurface' with ⟨hends, hshows, hcount⟩
      refine ⟨hends, hshows, ?_⟩
      rw [applyAll_cons, applyAll_cons, hcount, hresult, Nat.add_left_comm]

/--
All interleavings of writes and of messages about the surface lead to the same
session and give back the same number.  Its model is the one that the writes lead
to alone, and its surface and rendering flag are those that the other messages
lead to alone, from any session that has the same model, or the same surface and
flag.
-/
theorem applyAll_interleaved (hwrites : forall m, m ∈ writes -> m.kind = .dataModelUpdate)
    (htraffic : forall m, m ∈ traffic -> m.kind ≠ .dataModelUpdate)
    (hms : Interleaving writes traffic ms) (hns : Interleaving writes traffic ns)
    (s : Session) :
    s.applyAll ms = s.applyAll ns ∧
      (forall d : Session, s.model = d.model ->
        (s.applyAll ms).1.model = (d.applyAll writes).1.model) ∧
      (forall t : Session, s.surface = t.surface -> s.isRendering = t.isRendering ->
        (s.applyAll ms).1.surface = (t.applyAll traffic).1.surface ∧
          (s.applyAll ms).1.isRendering = (t.applyAll traffic).1.isRendering) ∧
      (s.applyAll ms).2 = (s.applyAll writes).2 + (s.applyAll traffic).2 ∧
      (s.applyAll ms).1.appliedCount =
        s.appliedCount + ((s.applyAll writes).2 + (s.applyAll traffic).2) := by
  have hself : SameSurface s s := ⟨rfl, rfl⟩
  rcases applyAll_halves hms hwrites htraffic rfl hself with ⟨hmodel, hsurface, hcount⟩
  rcases applyAll_halves hns hwrites htraffic rfl hself with ⟨hmodel', hsurface', hcount'⟩
  have hnumber : (s.applyAll ms).2 = (s.applyAll ns).2 := hcount.trans hcount'.symm
  have hcounter : (s.applyAll ms).1.appliedCount = (s.applyAll ns).1.appliedCount := by
    rw [appliedCount_applyAll, appliedCount_applyAll, hnumber]
  refine ⟨?_, ?_, ?_, hcount, ?_⟩
  · have hshows := hsurface.trans hsurface'.symm
    exact Prod.ext (hshows.eq (hmodel.trans hmodel'.symm) hcounter) hnumber
  · intro d hd
    exact (applyAll_halves hms hwrites htraffic hd hself).1
  · intro t hshown hrendering
    rcases applyAll_halves hms hwrites htraffic rfl ⟨hshown, hrendering⟩ with ⟨_, hends, _⟩
    exact ⟨hends.surface, hends.isRendering⟩
  · rw [appliedCount_applyAll, hcount]

end Lists

theorem applyAll_interleaved_with_failures :
    let badWrite := Message.dataModelUpdate "/" (.int 5)
    let write := Message.dataModelUpdate "/n" (.int 1)
    let replace := Message.surfaceUpdate ⟨"main", none, []⟩
    let badDelete := Message.deleteSurface "side"
    let request := Message.beginRendering (some "main")
    let mixed := start.applyAll [replace, badWrite, badDelete, write, request]
    mixed = start.applyAll [badWrite, write, replace, badDelete, request] ∧ mixed.2 = 3 := by
  intro badWrite write replace badDelete request mixed
  have hmixed : Interleaving [badWrite, write] [replace, badDelete, request]
      [replace, badWrite, badDelete, write, request] :=
    .right _ (.left _ (.right _ (.left _ (.right _ .nil))))
  have hapart : Interleaving [badWrite, write] [replace, badDelete, request]
      [badWrite, write, replace, badDelete, request] :=
    .left _ (.left _ (.right _ (.right _ (.right _ .nil))))
  have hall := applyAll_interleaved (by decide) (by decide) hmixed hapart start
  exact ⟨hall.1, rfl⟩

end Session
end SurfaceFeed
