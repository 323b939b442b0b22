import SurfaceFeed.Proofs.Chunking
import SurfaceFeed.Proofs.Json.Reading
import SurfaceFeed.Proofs.Scanner.Documents

/-!
# The scanner on lists of objects

## The layout of a list

The text of a list of objects is cut into its elements.  An element is an object
with what stands before it: the opening bracket or a comma, and space.  Of the
elements some lie inside a prefix of the text, and one may be cut by its end.
-/

namespace SurfaceFeed

structure Element where
  gap : Bytes
  object : Bytes

namespace Element

def text (e : Element) : Bytes :=
  e.gap ++ e.object

/-- The element stands after the byte `sep`, and its object is the text of `item`. -/
structure Of (sep : UInt8) (item : Json) (e : Element) : Prop where
  gap : exists a b, Json.Space a ∧ Json.Space b ∧ e.gap = a ++ sep :: b
  braced : exists body, e.object = 0x7b :: (body ++ [0x7d])
  reads : Json.ofBytes e.object = .ok item

def within : List Element -> Nat -> Nat
  | [], _ => 0
  | e :: rest, n =>
      if e.text.length ≤ n then within rest (n - e.text.length) + 1 else 0

/-- What a prefix of the text has of the object that it cuts. -/
def unfinished : List Element -> Bytes -> Bytes
  | [], _ => []
  | e :: rest, received =>
      if e.text.length ≤ received.length then
        unfinished rest (received.drop e.text.length)
      else received.drop e.gap.length

end Element

/-- The elements of a list, the first after the byte `sep` and the others after commas. -/
inductive Laid : UInt8 -> List Json -> List Element -> Prop where
  | nil {sep : UInt8} : Laid sep [] []
  | cons {sep : UInt8} {item : Json} {items : List Json} {e : Element}
      {elements : List Element} :
      e.Of sep item -> Laid 0x2c items elements -> Laid sep (item :: items) (e :: elements)

structure Layout (text : Bytes) (items : List Json) where
  elements : List Element
  before : Bytes
  after : Bytes
  laid : Laid 0x5b items elements
  before_space : Json.Space before
  after_space : Json.Space after
  text_eq : text = elements.flatMap Element.text ++ (before ++ 0x5d :: after)

namespace Layout

variable {text : Bytes} {items : List Json}

def closing (layout : Layout text items) : Nat :=
  (layout.elements.flatMap Element.text).length + layout.before.length

end Layout

/-! ## Every list of objects has a layout -/

theorem Laid.length_eq {sep : UInt8} {items : List Json} {elements : List Element}
    (h : Laid sep items elements) : elements.length = items.length := by
  induction h with
  | nil => rfl
  | cons _ _ ih => simp [ih]

namespace Json

theorem Writes.written_of_braced {body : Bytes} {v : Json}
    (h : Writes (0x7b :: (body ++ [0x7d])) v) :
    Written Reader.deepest (.value v) (0x7b :: (body ++ [0x7d])) := by
  rcases h.exists_front rfl with ⟨s, b, htext, hb, hs⟩
  have hback : b = [] := by
    rcases List.eq_nil_or_concat b with rfl | ⟨b', x, rfl⟩
    · rfl
    · have hx := hb x (by simp)
      have hlast := congrArg List.getLast? htext
      rw [← List.cons_append, List.getLast?_concat] at hlast
      have hbrace : 0x7d = x := by simpa using hlast
      rw [← hbrace] at hx
      cases hx
  rw [htext, hback, List.append_nil]
  exact hs

end Json

theorem Element.Of.exists_neutral {sep : UInt8} {item : Json} {e : Element}
    (h : e.Of sep item) (hobject : exists fields, item = .object fields) :
    exists body, e.object = 0x7b :: (body ++ [0x7d]) ∧ Scanner.Neutral body := by
  rcases h.braced with ⟨body, hbody⟩
  rcases hobject with ⟨fields, rfl⟩
  have hreads := h.reads
  rw [hbody] at hreads
  have hwritten := Json.Writes.written_of_braced ((Json.ofBytes_eq_ok_iff _ _).1 hreads)
  rw [hbody]
  exact Scanner.exists_braced_of_object hwritten

theorem Element.of_written {depth : Nat} {sep : UInt8} {fields : List (String × Json)}
    {a b s : Bytes} (ha : Json.Space a) (hb : Json.Space b) (hdepth : depth ≤ Json.Reader.deepest)
    (hs : Json.Written depth (.value (.object fields)) s) :
    Element.Of sep (.object fields) ⟨a ++ sep :: b, s⟩ := by
  rcases Scanner.exists_braced_of_object hs with ⟨body, hbody, _⟩
  have hwrites : Json.Writes s (.object fields) :=
    ⟨[], s, [], by simp, Json.space_nil, Json.space_nil, hs.mono hdepth⟩
  exact ⟨⟨a, b, ha, hb, rfl⟩, ⟨body, hbody⟩, (Json.ofBytes_eq_ok_iff s _).2 hwrites⟩

theorem exists_laid_of_items {depth : Nat} (hdepth : depth ≤ Json.Reader.deepest)
    {vs : List Json} {t : Bytes} (h : Json.Written depth (.items vs) t)
    (hobjects : forall v, v ∈ vs -> exists fields, v = .object fields) :
    exists elements before, Laid 0x2c vs elements ∧ Json.Space before ∧
      t = elements.flatMap Element.text ++ (before ++ [0x5d]) := by
  induction vs generalizing t with
  | nil =>
      cases h with
      | @endOfItems depth a ha => exact ⟨[], a, .nil, ha, rfl⟩
  | cons v vs ih =>
      cases h with
      | @nextItem depth a b s t v vs ha hb hs ht =>
          rcases hobjects v List.mem_cons_self with ⟨fields, rfl⟩
          rcases ih ht (fun w hw => hobjects w (List.mem_cons_of_mem _ hw)) with
            ⟨elements, before, hlaid, hbefore, rfl⟩
          refine ⟨⟨a ++ 0x2c :: b, s⟩ :: elements, before,
            .cons (Element.of_written ha hb hdepth hs) hlaid, hbefore, ?_⟩
          simp [Element.text]

/-- A text that writes a list of objects, one at least, can be laid out. -/
theorem exists_layout {text : Bytes} {items : List Json}
    (h : Json.ofBytes text = .ok (.array items)) (hne : items ≠ [])
    (hobjects : forall item, item ∈ items -> exists fields, item = .object fields) :
    Nonempty (Layout text items) := by
  rcases (Json.ofBytes_eq_ok_iff _ _).1 h with ⟨a, s, b, rfl, ha, hb, hs⟩
  cases items with
  | nil => exact absurd rfl hne
  | cons item items =>
      rcases hobjects item List.mem_cons_self with ⟨fields, rfl⟩
      rcases hs.exists_of_list with ⟨below, c, t, u, hbelow, rfl, hc, ht, hu⟩
      have hdepth : below ≤ Json.Reader.deepest := by omega
      rcases exists_laid_of_items hdepth hu
          (fun v hv => hobjects v (List.mem_cons_of_mem _ hv)) with
        ⟨elements, before, hlaid, hbefore, rfl⟩
      exact ⟨⟨⟨a ++ 0x5b :: c, t⟩ :: elements, before, b,
        .cons (Element.of_written ha hc hdepth ht) hlaid, hbefore, hb, by simp [Element.text]⟩⟩

/-! ## Prefixes -/

theorem prefix_append_cases {a b t : Bytes} (h : t <+: a ++ b) :
    (t <+: a ∧ t.length < a.length) ∨ exists t', t = a ++ t' ∧ t' <+: b := by
  rcases List.prefix_or_prefix_of_prefix h (List.prefix_append a b) with hshort | hlong
  · rcases Nat.lt_or_ge t.length a.length with hlt | hge
    · exact .inl ⟨hshort, hlt⟩
    · have ht : t = a := hshort.eq_of_length_le hge
      exact .inr ⟨[], by simp [ht], List.nil_prefix⟩
  · rcases hlong with ⟨t', rfl⟩
    exact .inr ⟨t', rfl, (List.prefix_append_right_inj a).1 h⟩

namespace Scanner

inductive Awaits : UInt8 -> Place -> Prop where
  | opening {held : Bytes} : Awaits 0x5b (.outside held)
  | comma {held : Bytes} : Awaits 0x2c (.list held true)

/--
What a scanner holds of a list is no more than the object that is open; while no list is
open, all that came was space.
-/
inductive Holding (fed : Bytes) : Bytes -> Place -> Prop where
  | outside {held : Bytes} : Json.Space fed -> Holding fed [] (.outside held)
  | list {held : Bytes} {anyObject : Bool} : Holding fed [] (.list held anyObject)
  | object {received : Bytes} {depth : Nat} :
      received ≠ [] -> Holding fed received (.object received.reverse depth)
  | closed : Holding fed [] .closed

theorem Holding.holdAll {fed : Bytes} {p : Place} (h : Holding fed [] p) {a : Bytes}
    (ha : Json.Space a) : Holding (fed ++ a) [] (p.holdAll a) := by
  cases h with
  | @outside held hfed =>
      rcases Place.exists_holdAll_outside held a with ⟨held', hheld'⟩
      rw [hheld']
      exact .outside (hfed.append ha)
  | @list held anyObject =>
      rcases Place.exists_holdAll_list held a anyObject with ⟨held', hheld'⟩
      rw [hheld']
      exact .list
  | object hne => exact absurd rfl hne
  | closed =>
      rw [Place.holdAll_closed]
      exact .closed

theorem Awaits.scan_gap {sep : UInt8} {p : Place} (hp : Awaits sep p) {a b : Bytes}
    (ha : Json.Space a) (hb : Json.Space b) :
    exists held anyObject,
      scan ⟨.plain, p⟩ (a ++ sep :: b) = (⟨.plain, .list held anyObject⟩, []) := by
  rw [scan_append_of_eq (inert_space ha p)]
  cases hp with
  | @opening held =>
      rcases Place.exists_holdAll_outside held a with ⟨held', hheld'⟩
      have hopen : step ⟨.plain, .outside held'⟩ 0x5b =
          (⟨.plain, .list [0x5b] false⟩, none) := rfl
      rcases Place.exists_holdAll_list [0x5b] b false with ⟨held'', hheld''⟩
      rw [hheld', scan_cons, hopen, inert_space hb, hheld'']
      exact ⟨held'', false, rfl⟩
  | @comma held =>
      rcases Place.exists_holdAll_list held a true with ⟨held', hheld'⟩
      rcases Place.exists_holdAll_list held' (0x2c :: b) true with ⟨held'', hheld''⟩
      rw [hheld', inert_comma hb, hheld'']
      exact ⟨held'', true, rfl⟩

theorem Awaits.holding_gap_part {sep : UInt8} {p : Place} (hp : Awaits sep p) {fed : Bytes}
    (hholding : Holding fed [] p) {a b t : Bytes} (ha : Json.Space a) (hb : Json.Space b)
    (ht : t <+: a ++ sep :: b) : Holding (fed ++ t) [] (scan ⟨.plain, p⟩ t).1.place := by
  rcases prefix_append_cases ht with ⟨hshort, _⟩ | ⟨t', rfl, ht'⟩
  · have hspace : Json.Space t := fun x hx => ha x (hshort.subset hx)
    rw [inert_space hspace]
    exact hholding.holdAll hspace
  · rcases List.prefix_cons_iff.1 ht' with rfl | ⟨t'', rfl, ht''⟩
    · rw [List.append_nil, inert_space ha]
      exact hholding.holdAll ha
    · have hspace : Json.Space t'' := fun x hx => hb x (ht''.subset hx)
      rcases hp.scan_gap ha hspace with ⟨held, anyObject, hscan⟩
      rw [hscan]
      exact .list

/-! ## One element -/

section Elements

variable {sep : UInt8} {p : Place} {item : Json} {e : Element}

theorem Awaits.scan_element (hp : Awaits sep p) (he : e.Of sep item)
    (hobject : exists fields, item = .object fields) :
    scan ⟨.plain, p⟩ e.text = (⟨.plain, .list [] true⟩, [.object e.object]) := by
  rcases he.gap with ⟨a, b, ha, hb, hgap⟩
  rcases he.exists_neutral hobject with ⟨body, hbody, hneutral⟩
  rcases hp.scan_gap ha hb with ⟨held, anyObject, hscan⟩
  rw [Element.text, hgap, hbody, scan_append_of_eq hscan]
  exact (scan_braced hneutral held anyObject).2

/--
Nothing is signalled before the whole element is there, and of its object the scanner holds
what there is.
-/
theorem Awaits.scan_element_part (hp : Awaits sep p) (he : e.Of sep item)
    (hobject : exists fields, item = .object fields) {t : Bytes} (ht : t <+: e.text)
    (hlt : t.length < e.text.length) :
    (scan ⟨.plain, p⟩ t).2 = [] ∧ forall fed, Holding fed [] p ->
      Holding (fed ++ t) (t.drop e.gap.length) (scan ⟨.plain, p⟩ t).1.place := by
  rcases he.gap with ⟨a, b, ha, hb, hgap⟩
  rcases hp.scan_gap ha hb with ⟨held, anyObject, hscan⟩
  rw [← hgap] at hscan
  rcases prefix_append_cases ht with ⟨hshort, hlength⟩ | ⟨t', rfl, ht'⟩
  · constructor
    · exact signals_of_part hshort (congrArg Prod.snd hscan)
    · intro fed hholding
      rw [List.drop_eq_nil_of_le (Nat.le_of_lt hlength)]
      rw [hgap] at hshort
      exact hp.holding_gap_part hholding ha hb hshort
  · rw [List.drop_left, scan_append_of_eq hscan]
    cases t' with
    | nil => exact ⟨rfl, fun _ _ => .list⟩
    | cons x t' =>
        rcases he.exists_neutral hobject with ⟨body, hbody, hneutral⟩
        rw [Element.text, List.length_append, List.length_append] at hlt
        have hshort := Nat.lt_of_add_lt_add_left hlt
        rw [hbody] at ht' hshort
        rcases scan_braced_part hneutral held anyObject (List.cons_ne_nil x t') ht' hshort with
          ⟨l, depth, hobject⟩
        rw [hobject]
        exact ⟨rfl, fun _ _ => .object (List.cons_ne_nil x t')⟩

end Elements

/-! ## All elements -/

section Lists

variable {items : List Json} {elements : List Element}

def objectSignals (elements : List Element) : List Signal :=
  elements.map fun e => .object e.object

theorem scan_closing {held before after t : Bytes} (hbefore : Json.Space before)
    (ht : t <+: before ++ 0x5d :: after) (fed : Bytes) :
    (scan ⟨.plain, .list held true⟩ t).2 =
        (if before.length < t.length then [.closed] else []) ∧
      Holding (fed ++ t) [] (scan ⟨.plain, .list held true⟩ t).1.place := by
  rcases prefix_append_cases ht with ⟨hshort, hlt⟩ | ⟨t', rfl, ht'⟩
  · have hspace : Json.Space t := fun x hx => hbefore x (hshort.subset hx)
    rw [inert_space hspace, if_neg (Nat.lt_asymm hlt)]
    exact ⟨rfl, (@Holding.list fed held true).holdAll hspace⟩
  · rcases Place.exists_holdAll_list held before true with ⟨held', hheld'⟩
    rw [scan_append_of_eq (inert_space hbefore _), hheld']
    rcases List.prefix_cons_iff.1 ht' with rfl | ⟨t'', rfl, _⟩
    · rw [if_neg (by simp)]
      exact ⟨rfl, .list⟩
    · have hclose : step ⟨.plain, .list held' true⟩ 0x5d =
          (⟨.plain, .closed⟩, some .closed) := rfl
      have hrest := @scan_closed ⟨.plain, .closed⟩ rfl t''
      rw [scan_cons, hclose]
      dsimp only
      rw [hrest.1, hrest.2, if_pos (by simp)]
      exact ⟨rfl, .closed⟩

/--
A prefix of a list signals the objects that end inside it, and the end of the list if
the closing bracket stands inside it.
-/
theorem scan_part {sep : UInt8} {p : Place} (hp : Awaits sep p)
    (h : Laid sep items elements) (hobjects : forall item, item ∈ items ->
      exists fields, item = .object fields) (hsome : elements = [] -> sep = 0x2c)
    {before after t : Bytes} (hbefore : Json.Space before)
    (ht : t <+: elements.flatMap Element.text ++ (before ++ 0x5d :: after)) :
    (scan ⟨.plain, p⟩ t).2 =
        objectSignals (elements.take (Element.within elements t.length)) ++
          (if (elements.flatMap Element.text).length + before.length < t.length
            then [.closed] else []) ∧
      forall fed, Holding fed [] p ->
        Holding (fed ++ t) (Element.unfinished elements t) (scan ⟨.plain, p⟩ t).1.place := by
  induction h generalizing p t with
  | nil =>
      have hsep := hsome rfl
      subst hsep
      cases hp with
      | @comma held =>
          have hclosing := @scan_closing held before after t hbefore ht
          simp only [List.flatMap_nil, List.length_nil, Nat.zero_add, List.take_nil]
          exact ⟨(hclosing []).1, fun fed _ => (hclosing fed).2⟩
  | @cons sep item items e elements he hlaid ih =>
      have hobject := hobjects item List.mem_cons_self
      rw [List.flatMap_cons, List.append_assoc] at ht
      rcases prefix_append_cases ht with ⟨hshort, hlt⟩ | ⟨t', rfl, ht'⟩
      · have hnot : ¬ e.text.length ≤ t.length := Nat.not_le.2 hlt
        have hopen : ¬ (List.flatMap Element.text (e :: elements)).length + before.length <
            t.length := by
          simp only [List.flatMap_cons, List.length_append]
          omega
        rw [Element.within, Element.unfinished, if_neg hnot, if_neg hnot, if_neg hopen]
        exact hp.scan_element_part he hobject hshort hlt
      · have hle : e.text.length ≤ (e.text ++ t').length := by simp
        have hclosing :
            ((List.flatMap Element.text (e :: elements)).length + before.length <
              (e.text ++ t').length) ↔
            ((List.flatMap Element.text elements).length + before.length < t'.length) := by
          simp only [List.flatMap_cons, List.length_append]
          omega
        have hlength : (e.text ++ t').length - e.text.length = t'.length := by simp
        rcases ih (@Awaits.comma []) (fun v hv => hobjects v (List.mem_cons_of_mem item hv))
          (fun _ => rfl) ht' with ⟨hsignals, hplace⟩
        rw [Element.within, Element.unfinished, if_pos hle, if_pos hle, hlength, List.drop_left,
          scan_append, hp.scan_element he hobject, hsignals]
        refine ⟨?_, ?_⟩
        · simp only [hclosing]
          rfl
        · intro fed _
          rw [← List.append_assoc]
          exact hplace (fed ++ e.text) .list

end Lists

end Scanner

end SurfaceFeed
