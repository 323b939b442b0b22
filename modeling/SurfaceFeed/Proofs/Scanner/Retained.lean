import SurfaceFeed.Proofs.Scanner.Buffer

/-!
# What the buffer retains

## The open object

After each chunk the offsets are back at the ends of the buffer: all of it has
been read, and an open object begins with its first byte.  What the buffer
retains then is that object, as far as it has come; nothing in a list that has no
object open, and nothing after the end of the list; and outside lists an end of
all that came, in which no bracket opens after the first byte.
-/

namespace SurfaceFeed

namespace Scanner

def depthAfter (text : Bytes) : Nat :=
  (start.scan text).1.place.depth

/-- After the text `before` an object opens with the first byte of `object`, and does not end. -/
structure Opens (before object : Bytes) : Prop where
  outside : depthAfter before = 0
  brace : object.head? = some 0x7b
  inside : forall part, part <+: object -> part ≠ [] -> 0 < depthAfter (before ++ part)

theorem cases_of_step {s : Scanner} {b : UInt8} {held : Bytes} {depth : Nat}
    (h : (s.step b).1.place = .object held depth) :
    (exists held' depth', s.place = .object held' depth' ∧ held = b :: held' ∧
      (0 < depth' -> 0 < depth)) ∨ (s.place.depth = 0 ∧ b = 0x7b ∧ held = [b] ∧ depth = 1) := by
  rcases s with ⟨l, p⟩
  have hplace : p.hold b = .object held depth ∨ ((p.hold b).turn b).1 = .object held depth := by
    cases l with
    | plain => exact .inr h
    | quoted | escaped => exact .inl h
  cases p with
  | outside held' =>
      rcases hplace with hheld | hturn
      · cases hheld
      · simp only [Place.hold, Place.turn] at hturn
        split at hturn <;> cases hturn
  | list held' anyObject =>
      rcases hplace with hheld | hturn
      · cases hheld
      · simp only [Place.hold, Place.turn] at hturn
        split at hturn
        · split at hturn <;> cases hturn
        split at hturn
        · next hbrace =>
            cases hturn
            exact .inr ⟨rfl, beq_iff_eq.1 hbrace, rfl, rfl⟩
        · cases hturn
  | closed => rcases hplace with hheld | hturn <;> contradiction
  | object held' depth' =>
      rcases hplace with hheld | hturn
      · cases hheld
        exact .inl ⟨held', depth, rfl, rfl, id⟩
      · simp only [Place.hold, Place.turn] at hturn
        split at hturn
        · cases hturn
          exact .inl ⟨held', depth', rfl, rfl, fun _ => Nat.succ_pos depth'⟩
        split at hturn
        · split at hturn
          · cases hturn
          · next hmore =>
              cases hturn
              exact .inl ⟨held', depth', rfl, rfl, fun _ => Nat.sub_pos_of_lt (Nat.lt_of_not_le hmore)⟩
        · cases hturn
          exact .inl ⟨held', depth, rfl, rfl, id⟩

theorem Opens.concat {before object : Bytes} (h : Opens before object) {b : UInt8}
    (hinside : 0 < depthAfter (before ++ (object ++ [b]))) : Opens before (object ++ [b]) := by
  refine ⟨h.outside, ?_, ?_⟩
  · rw [List.head?_append, h.brace]
    rfl
  · intro part hpart hne
    rcases List.prefix_concat_iff.1 hpart with rfl | hpart
    · exact hinside
    · exact h.inside part hpart hne

/-- What is held of an object is all that came since its brace. -/
theorem opens_of_place {text held : Bytes} {depth : Nat}
    (h : (start.scan text).1.place = .object held depth) :
    0 < depth ∧ exists before, text = before ++ held.reverse ∧ Opens before held.reverse := by
  induction text using List.reverseRecOn generalizing held depth with
  | nil => cases h
  | append_singleton text b ih =>
      have hdepth : depthAfter (text ++ [b]) = depth := congrArg Place.depth h
      rw [scan_append] at h
      rcases cases_of_step h with ⟨held', depth', hplace, rfl, hpos⟩ | ⟨hnone, rfl, rfl, rfl⟩
      · rcases ih hplace with ⟨hpos', before, rfl, hopens⟩
        rw [List.append_assoc] at hdepth
        refine ⟨hpos hpos', before, ?_, ?_⟩
        · rw [List.reverse_cons, List.append_assoc]
        · rw [List.reverse_cons]
          exact hopens.concat (hdepth.symm ▸ hpos hpos')
      · refine ⟨Nat.one_pos, text, rfl, hnone, rfl, ?_⟩
        intro part hpart hne
        rcases List.prefix_concat_iff.1 (show part <+: [] ++ [0x7b] from hpart) with rfl | hnil
        · exact hdepth.symm ▸ Nat.one_pos
        · exact absurd (List.prefix_nil.1 hnil) hne

end Scanner

namespace Buffer

/--
The state of a scanner between chunks, when the bytes `fed` have come: where its offsets stand, and
which of these bytes are in its buffer.
-/
structure Sound (fed : Bytes) (s : Buffer) : Prop where
  scanned : s.scanned = s.bytes.length
  depth_iff : 0 < s.depth ↔ s.objectStart.isSome = true
  start_iff : s.objectStart.isSome = true ↔ s.objectStart = some 0
  object : 0 < s.depth ->
    s.inList = true ∧ exists before, fed = before ++ s.bytes ∧ Scanner.Opens before s.bytes
  list : s.inList = true -> s.depth = 0 -> s.bytes = []
  closed : s.closed = true -> s.bytes = [] ∧ s.depth = 0 ∧ s.inList = false
  inString : s.escapeNext = true -> s.inString = true
  outside : s.inList = false -> s.closed = false -> s.bytes <:+ fed ∧ 0x5b ∉ s.bytes.tail

theorem Sound.of_no_object {fed : Bytes} {s : Buffer} (hdepth : s.depth = 0)
    (hstart : s.objectStart = none) (hscanned : s.scanned = s.bytes.length)
    (hlist : s.inList = true -> s.bytes = [])
    (hclosed : s.closed = true -> s.bytes = [] ∧ s.inList = false)
    (hstring : s.escapeNext = true -> s.inString = true)
    (houtside : s.inList = false -> s.closed = false -> s.bytes <:+ fed ∧ 0x5b ∉ s.bytes.tail) :
    Sound fed s where
  scanned := hscanned
  depth_iff := by
    rw [hdepth, hstart]
    decide
  start_iff := by
    rw [hstart]
    decide
  object hpos := absurd hdepth (Nat.ne_of_gt hpos)
  list htrue _ := hlist htrue
  closed htrue := ⟨(hclosed htrue).1, hdepth, (hclosed htrue).2⟩
  inString := hstring
  outside := houtside

theorem Settled.sound {s : Buffer} {t : Scanner} {fed : Bytes} (h : Settled s t)
    (hsettle : t.place.settle = t.place) (hholds : t.place.Holds fed)
    (halike : Place.Alike t.place (Scanner.start.scan fed).1.place) : Sound fed s := by
  rcases t with ⟨l, p⟩
  have hheld : p.held = s.bytes := h.held
  have hplace : Stands s.bytes s p := h.reads.place
  have hstring := h.reads.inString
  cases hplace with
  | outside hlist hdepth hstart hopen _ =>
      rcases Window.split hholds with ⟨front, hfed, _, _⟩
      refine .of_no_object hdepth hstart h.scanned ?_ ?_ hstring fun _ _ => ?_
      · exact fun htrue => absurd (htrue.symm.trans hlist) nofun
      · exact fun htrue => absurd (htrue.symm.trans hopen) nofun
      · rw [← hheld]
        exact ⟨⟨front, hfed.symm⟩, Window.tail hholds⟩
  | list hlist hdepth hstart hopen _ _ =>
      refine .of_no_object hdepth hstart h.scanned (fun _ => ?_) ?_ hstring ?_
      · rw [← hheld, ← (Place.list.inj hsettle).1]
        rfl
      · exact fun htrue => absurd (htrue.symm.trans hopen) nofun
      · exact fun hfalse => absurd (hlist.symm.trans hfalse) nofun
  | closed hlist hdepth hstart hclosed hbytes =>
      refine .of_no_object hdepth hstart h.scanned (fun _ => hbytes) (fun _ => ⟨hbytes, hlist⟩)
        hstring ?_
      exact fun _ hfalse => absurd (hclosed.symm.trans hfalse) nofun
  | @object front held hlist hdepth hstart hopen _ hread =>
      have hfront : front = [] := by
        have hlength := congrArg List.length (hheld.trans hread)
        rw [Place.held, List.length_append] at hlength
        exact List.eq_nil_of_length_eq_zero (by omega)
      have hzero : s.objectStart = some 0 := by
        rw [hstart, hfront]
        rfl
      have hplace := halike.symm.eq_object
      rcases (Scanner.opens_of_place hplace).2 with ⟨before, hfed, hopens⟩
      have hbytes : held.reverse = s.bytes := hheld
      rw [hbytes] at hfed hopens
      refine ⟨h.scanned, ?_, ?_, ?_, ?_, ?_, hstring, ?_⟩
      · rw [hzero]
        exact ⟨fun _ => rfl, fun _ => hdepth⟩
      · rw [hzero]
        exact ⟨fun _ => rfl, fun _ => rfl⟩
      · exact fun _ => ⟨hlist, before, hfed, hopens⟩
      · exact fun _ hnone => absurd hnone (Nat.ne_of_gt hdepth)
      · exact fun htrue => absurd (htrue.symm.trans hopen) nofun
      · exact fun hfalse => absurd (hlist.symm.trans hfalse) nofun

/--
Whatever chunks a scanner with a buffer is fed, no access leaves the buffer and no difference is
below zero, and the state after them is sound.  It is the state of the scanner of a fresh assembler
after the same chunks, and the assembler has fired the events for its signals.
-/
theorem feedAll_sound (settings : Settings) (chunks : List Bytes) :
    exists s signals, start.feedAll chunks = some (s, signals) ∧ Sound chunks.flatten s ∧
      (let fed := (Assembler.start settings).feedAll chunks
      fed.1.scanner.place = s.place ∧ (s.closed = false -> fed.1.scanner.lexical = s.lexical) ∧
        Reacts (Assembler.start settings) signals fed.1 fed.2) := by
  have hholds := Assembler.holds_start settings chunks
  have hsettle := Assembler.settle_start settings chunks
  have halike := (Assembler.feedAll_start settings chunks).1.scanner.place
  have hstart : Settled start (Assembler.start settings).scanner := settled_start
  rcases hstart.feedAll rfl chunks with ⟨s, signals, hfeed, hsettled, hreacts⟩
  refine ⟨s, signals, hfeed, hsettled.sound hsettle hholds halike, hsettled.place_eq.symm, ?_,
    hreacts⟩
  intro hopen
  exact (hsettled.reads.lexical hopen).symm

/-- The object that is open is all that is retained: of `x[{},{` and `y`, the bytes `{y`. -/
example : (start.feedAll [[0x78, 0x5b, 0x7b, 0x7d, 0x2c, 0x7b], [0x79]]).map Prod.fst =
    some ⟨[0x7b, 0x79], 2, true, 1, false, false, some 0, 2, false⟩ :=
  rfl

end Buffer
end SurfaceFeed
