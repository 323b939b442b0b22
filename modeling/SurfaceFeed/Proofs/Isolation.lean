import SurfaceFeed.Proofs.Batch

/-!
# Broken objects in a list

## Where an object ends

The scanner does not know whether an object is a document.  It ends where the
braces outside strings are balanced, whatever else stands between them.  So an
object that is broken is one event, and the scanner stands after it where it
stands after any other: what becomes of an object hangs on its own bytes alone.
-/

namespace SurfaceFeed
namespace Scanner

mutual

def unquoted : Bytes -> Bytes
  | [] => []
  | b :: rest => if b = 0x22 then afterQuote rest else b :: unquoted rest

def afterQuote : Bytes -> Bytes
  | [] => []
  | b :: rest =>
      if b = 0x22 then unquoted rest
      else if b = 0x5c then afterEscape rest
      else afterQuote rest

def afterEscape : Bytes -> Bytes
  | [] => []
  | _ :: rest => afterQuote rest

end

/-- How many braces open among some bytes, less those that close. -/
def balance (bytes : Bytes) : Int :=
  bytes.count 0x7b - bytes.count 0x7d

/--
A text in braces, which need not be a document: the braces outside strings are
balanced at its end, and not before.
-/
structure Span (object : Bytes) : Prop where
  opens : object.head? = some 0x7b
  closes : balance (unquoted object) = 0
  first : forall n, n < object.length -> 0 < n -> balance (unquoted (object.take n)) ≠ 0

theorem span_iff (object : Bytes) :
    Span object ↔ object.head? = some 0x7b ∧ balance (unquoted object) = 0 ∧
      forall n, n < object.length -> 0 < n -> balance (unquoted (object.take n)) ≠ 0 :=
  ⟨fun h => ⟨h.opens, h.closes, h.first⟩, fun ⟨h, h', h''⟩ => ⟨h, h', h''⟩⟩

instance (object : Bytes) : Decidable (Span object) :=
  decidable_of_iff' _ (span_iff object)

/-- What separates objects has no quote, and no bracket or brace that the scanner waits for. -/
def Separator (text : Bytes) : Prop :=
  forall b, b ∈ text -> b ≠ 0x22 ∧ b ≠ 0x7b ∧ b ≠ 0x5d

instance (text : Bytes) : Decidable (Separator text) :=
  inferInstanceAs (Decidable (forall b, b ∈ text -> b ≠ 0x22 ∧ b ≠ 0x7b ∧ b ≠ 0x5d))

def listOf (front : Bytes) (members : List (Bytes × Bytes)) : Bytes :=
  0x5b :: (front ++ (members.flatMap (fun member => member.1 ++ member.2) ++ [0x5d]))

/-! ## Counting from any lexical state -/

def outsideStrings : Lexical -> Bytes -> Bytes
  | .plain => unquoted
  | .quoted => afterQuote
  | .escaped => afterEscape

def weight : Lexical -> UInt8 -> Int
  | .plain, b => if b = 0x7b then 1 else if b = 0x7d then -1 else 0
  | .quoted, _ | .escaped, _ => 0

@[simp] theorem balance_nil (l : Lexical) : balance (outsideStrings l []) = 0 := by
  cases l <;> rfl

@[simp] theorem balance_cons (b : UInt8) (bytes : Bytes) :
    balance (b :: bytes) = weight .plain b + balance bytes := by
  by_cases hopen : b = 0x7b
  · subst hopen
    have hweight : weight .plain 0x7b = 1 := rfl
    have hclosing : (0x7b :: bytes).count 0x7d = bytes.count 0x7d :=
      List.count_cons_of_ne (by decide)
    rw [balance, balance, hweight, List.count_cons_self, hclosing]
    omega
  · by_cases hclose : b = 0x7d
    · subst hclose
      have hweight : weight .plain 0x7d = -1 := rfl
      have hopening : (0x7d :: bytes).count 0x7b = bytes.count 0x7b :=
        List.count_cons_of_ne (by decide)
      rw [balance, balance, hweight, List.count_cons_self, hopening]
      omega
    · simp [balance, weight, hopen, hclose]

theorem balance_outsideStrings (l : Lexical) (b : UInt8) (rest : Bytes) :
    balance (outsideStrings l (b :: rest)) =
      weight l b + balance (outsideStrings (l.next b) rest) := by
  cases l with
  | plain =>
      by_cases hquote : b = 0x22
      · subst hquote
        simp [outsideStrings, unquoted, weight, Lexical.next]
      · simp only [outsideStrings, unquoted, hquote, if_false, balance_cons]
        simp [Lexical.next, hquote]
  | quoted =>
      by_cases hquote : b = 0x22
      · subst hquote
        simp [outsideStrings, afterQuote, weight, Lexical.next]
      · by_cases hslash : b = 0x5c
        · subst hslash
          simp [outsideStrings, afterQuote, weight, Lexical.next]
        · simp [outsideStrings, afterQuote, weight, Lexical.next, hquote, hslash]
  | escaped => simp [outsideStrings, afterEscape, weight, Lexical.next]

/-! ## The scan of an object -/

theorem step_object (l : Lexical) (held : Bytes) (depth : Nat) {b : UInt8}
    (h : (depth : Int) + 1 + weight l b ≠ 0) : exists depth' : Nat,
      (depth' : Int) = depth + weight l b ∧
        step ⟨l, .object held (depth + 1)⟩ b =
          (⟨l.next b, .object (b :: held) (depth' + 1)⟩, none) := by
  cases l with
  | quoted => exact ⟨depth, by simp [weight], rfl⟩
  | escaped => exact ⟨depth, by simp [weight], rfl⟩
  | plain =>
      by_cases hopen : b = 0x7b
      · subst hopen
        exact ⟨depth + 1, by simp [weight], rfl⟩
      · by_cases hclose : b = 0x7d
        · subst hclose
          cases depth with
          | zero => exact absurd rfl h
          | succ depth =>
              have hweight : weight .plain 0x7d = -1 := rfl
              refine ⟨depth, by rw [hweight]; omega, ?_⟩
              simp [step, Place.hold, Place.turn]
        · refine ⟨depth, by simp [weight, hopen, hclose], ?_⟩
          simp [step, Place.hold, Place.turn, hopen, hclose]

theorem step_last {l : Lexical} {b : UInt8} (h : (0 : Int) + 1 + weight l b = 0)
    (held : Bytes) :
    step ⟨l, .object held 1⟩ b = (⟨.plain, .list [] true⟩, some (.object (b :: held).reverse)) := by
  cases l with
  | quoted => cases h
  | escaped => cases h
  | plain =>
      by_cases hopen : b = 0x7b
      · subst hopen
        cases h
      · by_cases hclose : b = 0x7d
        · subst hclose
          rfl
        · simp [weight, hopen, hclose] at h

/--
The rest of an object, from any depth and lexical state: it is signalled where the depth
first comes down to zero.
-/
theorem scan_rest {l : Lexical} {depth : Nat} {rest : Bytes} (held : Bytes)
    (hclose : (depth : Int) + 1 + balance (outsideStrings l rest) = 0)
    (hfirst : forall n, n < rest.length ->
      (depth : Int) + 1 + balance (outsideStrings l (rest.take n)) ≠ 0) :
    scan ⟨l, .object held (depth + 1)⟩ rest =
      (⟨.plain, .list [] true⟩, [.object (held.reverse ++ rest)]) := by
  induction rest generalizing l depth held with
  | nil =>
      rw [balance_nil] at hclose
      omega
  | cons b rest ih =>
      by_cases hlast : (depth : Int) + 1 + weight l b = 0
      · -- the depth is zero after this byte, which must then be the last
        have hrest : rest = [] := by
          cases rest with
          | nil => rfl
          | cons c rest =>
              refine absurd ?_ (hfirst 1 (by simp))
              rw [List.take_succ_cons, List.take_zero, balance_outsideStrings, balance_nil]
              omega
        subst hrest
        have hdepth : depth = 0 := by
          have hweight : -1 ≤ weight l b := by
            cases l with
            | plain =>
                simp only [weight]
                split
                · decide
                · split <;> decide
            | quoted => exact (by decide : (-1 : Int) ≤ 0)
            | escaped => exact (by decide : (-1 : Int) ≤ 0)
          omega
        subst hdepth
        rw [scan_cons, step_last hlast]
        simp [scan]
      · rcases step_object l held depth hlast with ⟨depth', hdepth', hstep⟩
        have hclose' : (depth' : Int) + 1 + balance (outsideStrings (l.next b) rest) = 0 := by
          rw [balance_outsideStrings] at hclose
          omega
        have hfirst' : forall n, n < rest.length ->
            (depth' : Int) + 1 + balance (outsideStrings (l.next b) (rest.take n)) ≠ 0 := by
          intro n hn
          have hcons := hfirst (n + 1) (Nat.succ_lt_succ hn)
          rw [List.take_succ_cons, balance_outsideStrings] at hcons
          omega
        rw [scan_cons, hstep, ih (b :: held) hclose' hfirst']
        simp

/-- An object in a list is one signal, and leaves the list open. -/
theorem Span.scan {object : Bytes} (h : Span object) (held : Bytes) (anyObject : Bool) :
    scan ⟨.plain, .list held anyObject⟩ object =
      (⟨.plain, .list [] true⟩, [.object object]) := by
  rcases h with ⟨hopens, hcloses, hfirst⟩
  cases object with
  | nil => cases hopens
  | cons b rest =>
      cases hopens
      have hbalance : forall part : Bytes, balance (unquoted (0x7b :: part)) =
          ((0 : Nat) : Int) + 1 + balance (outsideStrings .plain part) := by
        intro part
        exact balance_outsideStrings .plain 0x7b part
      have hstep : step ⟨.plain, .list held anyObject⟩ 0x7b =
          (⟨.plain, .object [0x7b] 1⟩, none) := rfl
      have hrest := @scan_rest .plain 0 rest [0x7b] (by rw [← hbalance]; exact hcloses) (by
        intro n hn
        rw [← hbalance]
        exact hfirst (n + 1) (Nat.succ_lt_succ hn) n.succ_pos)
      rw [scan_cons, hstep, hrest]
      rfl

/-! ## The scan of a list -/

theorem Separator.scan {text : Bytes} (h : Separator text) (held : Bytes) (anyObject : Bool) :
    exists held', scan ⟨.plain, .list held anyObject⟩ text =
      (⟨.plain, .list held' anyObject⟩, []) := by
  induction text generalizing held with
  | nil => exact ⟨held, rfl⟩
  | cons b text ih =>
      rcases h b List.mem_cons_self with ⟨hquote, hopen, hclose⟩
      rcases Place.exists_holdAll_list held [b] anyObject with ⟨held', hheld'⟩
      have hstep : step ⟨.plain, .list held anyObject⟩ b =
          (⟨.plain, .list held' anyObject⟩, none) := by
        have hhold : (Place.list held anyObject).hold b = .list held' anyObject := hheld'
        simp [step, hhold, Place.turn, Lexical.next, hquote, hopen, hclose]
      rcases ih (fun x hx => h x (List.mem_cons_of_mem b hx)) held' with ⟨held'', hscan⟩
      refine ⟨held'', ?_⟩
      rw [scan_cons, hstep, hscan]
      rfl

theorem scan_members {members : List (Bytes × Bytes)}
    (h : forall member, member ∈ members -> Span member.1 ∧ Separator member.2)
    (held : Bytes) (anyObject : Bool) : exists held',
      scan ⟨.plain, .list held anyObject⟩ (members.flatMap fun member => member.1 ++ member.2) =
        (⟨.plain, .list held' (anyObject || !members.isEmpty)⟩,
          members.map fun member => .object member.1) := by
  induction members generalizing held anyObject with
  | nil => exact ⟨held, by simp [Scanner.scan]⟩
  | cons member members ih =>
      rcases h member List.mem_cons_self with ⟨hspan, hseparator⟩
      rcases hseparator.scan [] true with ⟨held', hgap⟩
      rcases ih (fun m hm => h m (List.mem_cons_of_mem member hm)) held' true with
        ⟨held'', hrest⟩
      refine ⟨held'', ?_⟩
      rw [List.flatMap_cons, List.append_assoc, scan_append, hspan.scan]
      dsimp only
      rw [scan_append_of_eq hgap, hrest]
      simp

theorem scan_listOf {front : Bytes} {members : List (Bytes × Bytes)} (hne : members ≠ [])
    (hfront : Separator front)
    (hmembers : forall member, member ∈ members -> Span member.1 ∧ Separator member.2) :
    (start.scan (listOf front members)).2 =
      (members.map Prod.fst).map .object ++ [.closed] := by
  have hopen : start.step 0x5b = (⟨.plain, .list [0x5b] false⟩, none) := rfl
  rcases hfront.scan [0x5b] false with ⟨held, hgap⟩
  rcases scan_members hmembers held false with ⟨held', hscan⟩
  have hany : (false || !members.isEmpty) = true := by
    simpa using hne
  rw [hany] at hscan
  have hclose : scan ⟨.plain, .list held' true⟩ [0x5d] = (⟨.plain, .closed⟩, [.closed]) := rfl
  rw [listOf, scan_cons, hopen]
  dsimp only
  rw [scan_append_of_eq hgap, scan_append, hscan]
  dsimp only
  rw [hclose, List.map_map]
  rfl

end Scanner

/-! ## Objects and their events -/

theorem Event.length_messages_add_errors {events : List Event}
    (h : forall event, event ∈ events -> forall count, event ≠ .complete count) :
    (messages events).length + events.countP isError = events.length := by
  induction events with
  | nil => rfl
  | cons event events ih =>
      have hrest := ih fun x hx => h x (List.mem_cons_of_mem event hx)
      have hone : event.message?.toList.length + (if event.isError then 1 else 0) = 1 := by
        cases event with
        | message m => rfl
        | error e => rfl
        | complete count => exact absurd rfl (h (.complete count) List.mem_cons_self count)
      rw [messages_cons, List.length_append, List.countP_cons, List.length_cons, ← hrest]
      omega

namespace Assembler

/-- What becomes of an object, by its own bytes alone. -/
inductive Outcome (object : Bytes) : Event -> Prop where
  | message {v : Json} {m : Message} :
      Json.ofBytes object = .ok v -> Decode.message v = .ok m -> Outcome object (.message m)
  | malformed {fault : Json.ReadError} {e : StreamError} :
      Json.ofBytes object = .error fault -> e.code = "A2UI_E_STREAM_OBJECT" ->
      Outcome object (.error e)
  | notMessage {v : Json} {fault : DecodeError} {e : StreamError} :
      Json.ofBytes object = .ok v -> Decode.message v = .error fault ->
      e.code = "A2UI_E_STREAM_MESSAGE" -> Outcome object (.error e)

theorem outcome_readObject (settings : Settings) (object : Bytes) :
    Outcome object (readObject settings object) := by
  rw [readObject]
  cases hread : Json.ofBytes object with
  | error fault => exact .malformed hread rfl
  | ok v =>
      dsimp only
      cases hdecode : Decode.message v with
      | ok m => exact .message hread hdecode
      | error fault => exact .notMessage hread hdecode rfl

theorem Outcome.ne_complete {object : Bytes} {event : Event} (h : Outcome object event)
    (count : Nat) : event ≠ .complete count := by
  cases h with
  | message _ _ => exact nofun
  | malformed _ _ => exact nofun
  | notMessage _ _ _ => exact nofun

/--
Each object of a list is one event, which hangs on nothing but the object: a message, or an
error of one code if it is no document and of another if it is a document but no message.
The list then completes, and every object is counted once.
-/
theorem feedAll_of_spans (settings : Settings) {front : Bytes} {members : List (Bytes × Bytes)}
    (hne : members ≠ []) (hfront : Scanner.Separator front)
    (hmembers : forall member, member ∈ members ->
      Scanner.Span member.1 ∧ Scanner.Separator member.2)
    {chunks : List Bytes} (hchunks : chunks.flatten = Scanner.listOf front members) :
    let fed := (start settings).feedAll chunks
    fed.2 = members.map (fun member => readObject settings member.1) ++
        [.complete fed.1.messages.length] ∧
      (forall member, member ∈ members ->
        Outcome member.1 (readObject settings member.1)) ∧
      fed.1.messages.length + fed.1.errorCount = members.length := by
  intro fed
  have hsignals := Scanner.scan_listOf hne hfront hmembers
  rw [← hchunks] at hsignals
  rcases feedAll_of_closed settings hsignals with ⟨hevents, hmessages, herrors, _⟩
  refine ⟨?_, fun member _ => outcome_readObject settings member.1, ?_⟩
  · have hcount : fed.1.messages.length =
        (Event.messages ((members.map Prod.fst).map (readObject settings))).length :=
      congrArg List.length hmessages
    rw [hcount, hevents, List.map_map]
    rfl
  · have hall := @Event.length_messages_add_errors
      ((members.map Prod.fst).map (readObject settings)) (by
        intro event hevent count
        rcases List.mem_map.1 hevent with ⟨object, _, rfl⟩
        exact (outcome_readObject settings object).ne_complete count)
    rw [hmessages, herrors, hall, List.length_map, List.length_map]

theorem feedAll_of_broken_span :
    let broken : Bytes := [0x7b, 0x5b, 0x2c, 0x7d]
    let request : Bytes := [0x7b, 0x22, 0x74, 0x79, 0x70, 0x65, 0x22, 0x3a, 0x22, 0x62, 0x65, 0x67,
      0x69, 0x6e, 0x52, 0x65, 0x6e, 0x64, 0x65, 0x72, 0x69, 0x6e, 0x67, 0x22, 0x7d]
    let fed := (start .standard).feedAll [[0x5b, 0x7b], [0x5b, 0x2c, 0x7d, 0x2c], request ++ [0x5d]]
    fed.2 = [readObject .standard broken, .message (.beginRendering none), .complete 1] ∧
      Outcome broken (readObject .standard broken) ∧
      fed.1.messages.length + fed.1.errorCount = 2 := by
  intro broken request fed
  have hchunks : [[0x5b, 0x7b], [0x5b, 0x2c, 0x7d, 0x2c], request ++ [0x5d]].flatten =
      Scanner.listOf [] [(broken, [0x2c]), (request, [])] := rfl
  rcases feedAll_of_spans .standard (by decide) (by decide +kernel) (by decide +kernel) hchunks with
    ⟨hevents, houtcome, hcount⟩
  exact ⟨hevents, houtcome _ List.mem_cons_self, hcount⟩

end Assembler
end SurfaceFeed
