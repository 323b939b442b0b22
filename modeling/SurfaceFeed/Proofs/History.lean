import SurfaceFeed.Session

/-!
# The history of a session

## Messages and what came of them

A session can be asked to apply a message or a list of messages, and to take a
value of the user.  Whatever it was asked, its state is told by the history of
its messages: by what came of each of them, in order.
-/

namespace SurfaceFeed
namespace Session

structure Entry where
  message : Message
  result : Except WriteError Outcome

def Entry.changed (entry : Entry) : Bool :=
  Session.changed entry.result

def entries (s : Session) : List Message -> List Entry
  | [] => []
  | m :: ms => ⟨m, (s.apply m).2⟩ :: (s.apply m).1.entries ms

inductive Request where
  | apply (m : Message)
  | applyAll (ms : List Message)
  | setValue (pointer : String) (value : Value)

def perform (s : Session) : Request -> Session × List Entry
  | .apply m => ((s.apply m).1, s.entries [m])
  | .applyAll ms => ((s.applyAll ms).1, s.entries ms)
  | .setValue pointer value => ((s.setValue pointer value).1, [])

def run (s : Session) : List Request -> Session × List Entry
  | [] => (s, [])
  | request :: requests =>
      let (s, history) := s.perform request
      let (s, more) := s.run requests
      (s, history ++ more)

/-! ## What a message can do -/

inductive Step (s : Session) : Message -> Session -> Except WriteError Outcome -> Prop where
  | replaced (surface : Surface) :
      Step s (.surfaceUpdate surface) { s with surface := some surface }.counted
        (.ok .surfaceReplaced)
  | updated (path : String) (data : Value) (model : Model) (hwrite : s.write path data = .ok model) :
      Step s (.dataModelUpdate path data) { s with model := model }.counted (.ok .dataUpdated)
  | failed (path : String) (data : Value) (e : WriteError) (hwrite : s.write path data = .error e) :
      Step s (.dataModelUpdate path data) s (.error e)
  | deleted (surfaceId : String) (hactive : s.isActive surfaceId = true) :
      Step s (.deleteSurface surfaceId)
        { s with surface := none, isRendering := false }.counted (.ok .surfaceDeleted)
  | started (surfaceId : Option String)
      (hactive : forall id, surfaceId = some id -> s.isActive id = true) :
      Step s (.beginRendering surfaceId) { s with isRendering := true }.counted
        (.ok .renderingStarted)
  | ignoredDelete (surfaceId : String) (hactive : s.isActive surfaceId = false) :
      Step s (.deleteSurface surfaceId) s (.ok .ignored)
  | ignoredBegin (surfaceId : String) (hactive : s.isActive surfaceId = false) :
      Step s (.beginRendering (some surfaceId)) s (.ok .ignored)

theorem step_apply (s : Session) (m : Message) : Step s m (s.apply m).1 (s.apply m).2 := by
  cases m with
  | surfaceUpdate surface => exact .replaced surface
  | dataModelUpdate path data =>
      rw [apply]
      cases hwrite : s.write path data with
      | ok model => exact .updated path data model hwrite
      | error e => exact .failed path data e hwrite
  | deleteSurface surfaceId =>
      rw [apply]
      cases hactive : s.isActive surfaceId with
      | true => exact .deleted surfaceId hactive
      | false => exact .ignoredDelete surfaceId hactive
  | beginRendering surfaceId =>
      cases surfaceId with
      | none =>
          apply Step.started
          intro id hid
          cases hid
      | some surfaceId =>
          rw [apply]
          cases hactive : s.isActive surfaceId with
          | true =>
              apply Step.started
              intro id hid
              cases hid
              exact hactive
          | false => exact .ignoredBegin surfaceId hactive

theorem apply_of_not_changed {s : Session} {m : Message} (h : changed (s.apply m).2 = false) :
    (s.apply m).1 = s := by
  have hstep := step_apply s m
  generalize (s.apply m).1 = t at hstep ⊢
  generalize (s.apply m).2 = result at hstep h
  cases hstep with
  | failed => rfl
  | ignoredDelete => rfl
  | ignoredBegin => rfl
  | replaced => cases h
  | updated => cases h
  | deleted => cases h
  | started => cases h

theorem Step.appliedCount {s t : Session} {m : Message} {result : Except WriteError Outcome}
    (hstep : Step s m t result) :
    t.appliedCount = s.appliedCount + (if changed result then 1 else 0) := by
  cases hstep with
  | replaced | updated | deleted | started => rfl
  | failed | ignoredDelete | ignoredBegin => rfl

theorem setValue_of_error {s : Session} {pointer : String} {value : Value} {e : WriteError}
    (h : (s.setValue pointer value).2 = .error e) : (s.setValue pointer value).1 = s := by
  unfold setValue at h ⊢
  split at h
  · cases h
  · rfl

/-! ## Lists of messages -/

theorem applyAll_cons (s : Session) (m : Message) (ms : List Message) :
    s.applyAll (m :: ms) =
      (((s.apply m).1.applyAll ms).1,
        (if changed (s.apply m).2 then 1 else 0) + ((s.apply m).1.applyAll ms).2) :=
  rfl

theorem appliedCount_applyAll (s : Session) (ms : List Message) :
    (s.applyAll ms).1.appliedCount = s.appliedCount + (s.applyAll ms).2 := by
  induction ms generalizing s with
  | nil => rfl
  | cons m ms ih =>
      rw [applyAll_cons, ih (s.apply m).1, (step_apply s m).appliedCount, Nat.add_assoc]

/-- A list without the messages that did nothing does what the whole list does. -/
theorem applyAll_changed (s : Session) (ms : List Message) :
    s.applyAll (((s.entries ms).filter Entry.changed).map Entry.message) = s.applyAll ms := by
  induction ms generalizing s with
  | nil => rfl
  | cons m ms ih =>
      have hrest := ih (s.apply m).1
      rw [entries]
      cases hchanged : changed (s.apply m).2 with
      | true =>
          rw [List.filter_cons_of_pos (by exact hchanged), List.map_cons, applyAll_cons, hrest]
          rfl
      | false =>
          have hsame : (s.apply m).1 = s := apply_of_not_changed hchanged
          rw [List.filter_cons_of_neg (by rw [Entry.changed, hchanged]; exact Bool.false_ne_true),
            applyAll_cons, hchanged, hsame]
          rw [hsame] at hrest
          rw [hrest]
          exact (congrArg (Prod.mk _) (Nat.zero_add _)).symm

/-! ## What lasts of a history -/

/-- The history has an entry that sets something, and nothing after it revokes it. -/
def Lasts (sets revokes : Entry -> Prop) (history : List Entry) : Prop :=
  exists before entry after, history = before ++ entry :: after ∧ sets entry ∧
    forall later, later ∈ after -> ¬ revokes later

theorem not_lasts_nil (sets revokes : Entry -> Prop) : ¬ Lasts sets revokes [] := by
  intro h
  rcases h with ⟨before, entry, after, hnil, _⟩
  cases before <;> cases hnil

/-- Only the last entry counts, if it sets or revokes; else what lasted before it. -/
theorem lasts_concat {sets revokes : Entry -> Prop} {history : List Entry} {entry : Entry} :
    Lasts sets revokes (history ++ [entry]) ↔
      sets entry ∨ (¬ revokes entry ∧ Lasts sets revokes history) := by
  constructor
  · intro h
    rcases h with ⟨before, found, after, hsplit, hsets, hlater⟩
    rcases List.eq_nil_or_concat after with rfl | ⟨front, last, rfl⟩
    · have hends := List.append_inj' hsplit rfl
      have hfound : entry = found := List.head_eq_of_cons_eq hends.2
      rw [hfound]
      exact Or.inl hsets
    · rw [List.concat_eq_append] at hsplit hlater
      have hjoined : history ++ [entry] = (before ++ found :: front) ++ [last] := by
        rw [hsplit, List.append_assoc, List.cons_append]
      have hends := List.append_inj' hjoined rfl
      have hlast : entry = last := List.head_eq_of_cons_eq hends.2
      apply Or.inr
      constructor
      · rw [hlast]
        exact hlater last (List.mem_append_right front (List.mem_singleton_self last))
      · refine ⟨before, found, front, hends.1, hsets, ?_⟩
        intro later hmem
        exact hlater later (List.mem_append_left [last] hmem)
  · intro h
    rcases h with hsets | ⟨hkept, before, found, after, hsplit, hsets, hlater⟩
    · exact ⟨history, entry, [], rfl, hsets, fun later hmem => nomatch hmem⟩
    · refine ⟨before, found, after ++ [entry], ?_, hsets, ?_⟩
      · rw [hsplit, List.append_assoc, List.cons_append]
      · intro later hmem
        rcases List.mem_append.1 hmem with hmem | hmem
        · exact hlater later hmem
        · rw [List.mem_singleton.1 hmem]
          exact hkept

/-! ## The state is what the history tells -/

def Entry.replacesWith (surface : Surface) (entry : Entry) : Prop :=
  entry = ⟨.surfaceUpdate surface, .ok .surfaceReplaced⟩

/-- After such an entry no surface that came before it is the active one. -/
def Entry.replaces (entry : Entry) : Prop :=
  entry.result = .ok .surfaceReplaced ∨ entry.result = .ok .surfaceDeleted

def Entry.deletes (entry : Entry) : Prop :=
  entry.result = .ok .surfaceDeleted

def Entry.starts (entry : Entry) : Prop :=
  entry.result = .ok .renderingStarted

/-- The session is the one that messages with this history lead to. -/
structure Tells (history : List Entry) (s : Session) : Prop where
  surface : forall surface, s.surface = some surface ↔
    Lasts (Entry.replacesWith surface) Entry.replaces history
  isRendering : s.isRendering = true ↔ Lasts Entry.starts Entry.deletes history
  appliedCount : s.appliedCount = history.countP Entry.changed

theorem tells_ofModel (model : Model) : Tells [] (ofModel model) := by
  constructor
  · intro surface
    constructor
    · intro h
      cases h
    · intro h
      exact absurd h (not_lasts_nil _ _)
  · constructor
    · intro h
      cases h
    · intro h
      exact absurd h (not_lasts_nil _ _)
  · rfl

section Steps

variable {history : List Entry} {s t : Session} {m : Message}
  {result : Except WriteError Outcome}

theorem surface_step (htells : Tells history s) (hstep : Step s m t result)
    (surface : Surface) : t.surface = some surface ↔
      Lasts (Entry.replacesWith surface) Entry.replaces (history ++ [⟨m, result⟩]) := by
  have hbefore := htells.surface surface
  rw [lasts_concat, ← hbefore]
  cases hstep with
  | replaced | updated | failed | deleted | started | ignoredDelete | ignoredBegin =>
      simp [counted, Entry.replacesWith, Entry.replaces]

theorem isRendering_step (htells : Tells history s) (hstep : Step s m t result) :
    t.isRendering = true ↔ Lasts Entry.starts Entry.deletes (history ++ [⟨m, result⟩]) := by
  have hbefore := htells.isRendering
  rw [lasts_concat, ← hbefore]
  cases hstep with
  | replaced | updated | failed | deleted | started | ignoredDelete | ignoredBegin =>
      simp [counted, Entry.starts, Entry.deletes]

theorem appliedCount_step (htells : Tells history s) (hstep : Step s m t result) :
    t.appliedCount = (history ++ [Entry.mk m result]).countP Entry.changed := by
  rw [hstep.appliedCount, htells.appliedCount, List.countP_append, List.countP_singleton]
  rfl

theorem tells_step (htells : Tells history s) (hstep : Step s m t result) :
    Tells (history ++ [⟨m, result⟩]) t := by
  constructor
  · exact surface_step htells hstep
  · exact isRendering_step htells hstep
  · exact appliedCount_step htells hstep

theorem tells_applyAll (htells : Tells history s) (ms : List Message) :
    Tells (history ++ s.entries ms) (s.applyAll ms).1 := by
  induction ms generalizing s history with
  | nil =>
      rw [entries, List.append_nil]
      exact htells
  | cons m ms ih =>
      have hrest := ih (tells_step htells (step_apply s m))
      rw [List.append_assoc] at hrest
      exact hrest

theorem tells_setValue (htells : Tells history s) (pointer : String) (value : Value) :
    Tells history (s.setValue pointer value).1 := by
  unfold setValue
  split
  · exact ⟨htells.surface, htells.isRendering, htells.appliedCount⟩
  · exact htells

theorem tells_perform (htells : Tells history s) (request : Request) :
    Tells (history ++ (s.perform request).2) (s.perform request).1 := by
  cases request with
  | apply m => exact tells_step htells (step_apply s m)
  | applyAll ms => exact tells_applyAll htells ms
  | setValue pointer value =>
      show Tells (history ++ []) (s.setValue pointer value).1
      rw [List.append_nil]
      exact tells_setValue htells pointer value

theorem tells_run (htells : Tells history s) (requests : List Request) :
    Tells (history ++ (s.run requests).2) (s.run requests).1 := by
  induction requests generalizing s history with
  | nil =>
      rw [run, List.append_nil]
      exact htells
  | cons request requests ih =>
      have hrest := ih (tells_perform htells request)
      rw [List.append_assoc] at hrest
      exact hrest

end Steps

/--
A session from any model, after any requests, is told by the history of its
messages: the surface of the last replacement unless it was deleted, a rendering
that was started after the last deletion, and the number of messages that
changed it.  What is ignored or fails, alone or in a list, might as well not
have been asked.
-/
theorem run_told (model : Model) (requests : List Request) :
    let s := ((ofModel model).run requests).1
    let history := ((ofModel model).run requests).2
    ((forall m, (s.apply m).2 = .ok .ignored -> (s.apply m).1 = s) ∧
      (forall m e, (s.apply m).2 = .error e -> (s.apply m).1 = s) ∧
      forall pointer value e, (s.setValue pointer value).2 = .error e ->
        (s.setValue pointer value).1 = s) ∧
    s.model.root.isObject = true ∧
    (forall surface, s.surface = some surface ↔
      exists before after,
        history = before ++ ⟨.surfaceUpdate surface, .ok .surfaceReplaced⟩ :: after ∧
          forall later, later ∈ after ->
            later.result ≠ .ok .surfaceReplaced ∧ later.result ≠ .ok .surfaceDeleted) ∧
    (s.isRendering = true ↔
      exists before m after, history = before ++ ⟨m, .ok .renderingStarted⟩ :: after ∧
        forall later, later ∈ after -> later.result ≠ .ok .surfaceDeleted) ∧
    (s.appliedCount = history.countP Entry.changed ∧
      forall ms, (s.applyAll ms).1.appliedCount = s.appliedCount + (s.applyAll ms).2) ∧
    forall ms, s.applyAll (((s.entries ms).filter Entry.changed).map Entry.message) =
      s.applyAll ms := by
  intro s history
  have htells : Tells history s := tells_run (tells_ofModel model) requests
  refine ⟨⟨?_, ?_, ?_⟩, s.model.root_isObject, ?_, ?_,
    ⟨htells.appliedCount, appliedCount_applyAll s⟩, applyAll_changed s⟩
  · intro m h
    apply apply_of_not_changed
    rw [h]
    rfl
  · intro m e h
    apply apply_of_not_changed
    rw [h]
    rfl
  · intro pointer value e h
    exact setValue_of_error h
  · intro surface
    rw [htells.surface surface]
    constructor
    · intro h
      rcases h with ⟨before, entry, after, hsplit, rfl, hlater⟩
      exact ⟨before, after, hsplit, fun later hmem => not_or.1 (hlater later hmem)⟩
    · intro h
      rcases h with ⟨before, after, hsplit, hlater⟩
      exact ⟨before, _, after, hsplit, rfl, fun later hmem => not_or.2 (hlater later hmem)⟩
  · rw [htells.isRendering]
    constructor
    · intro h
      rcases h with ⟨before, ⟨m, result⟩, after, hsplit, hstarts, hlater⟩
      cases hstarts
      exact ⟨before, m, after, hsplit, hlater⟩
    · intro h
      rcases h with ⟨before, m, after, hsplit, hlater⟩
      exact ⟨before, _, after, hsplit, rfl, hlater⟩

theorem run_told_of_foreignDelete :
    let s := (start.run [.applyAll [.surfaceUpdate ⟨"main", none, []⟩, .beginRendering none]]).1
    (s.apply (.deleteSurface "side")).1 = s ∧ s.surface = some ⟨"main", none, []⟩ ∧
      s.isRendering = true ∧ s.appliedCount = 2 := by
  intro s
  rcases run_told .empty [.applyAll [.surfaceUpdate ⟨"main", none, []⟩, .beginRendering none]] with
    ⟨⟨hignored, _⟩, _, _, _, ⟨hcount, _⟩, _⟩
  exact ⟨hignored (.deleteSurface "side") rfl, rfl, rfl, hcount⟩

end Session
end SurfaceFeed
