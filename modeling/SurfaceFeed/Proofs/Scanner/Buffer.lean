import SurfaceFeed.Proofs.Prose
import SurfaceFeed.Proofs.Scanner.Documents

/-!
# The scanner with a buffer

## Bytes and offsets

A scanner may also keep its bytes in a buffer and remember by offsets how far it
has come and where the open object begins.  It appends each chunk, goes through
the new bytes, and in the end drops what is of no more use, which moves the
offsets.  Here each access by an offset and each difference of offsets is
checked, and a scanner for which a check fails has no next state.

Byte by byte such a scanner does what the scanner without offsets does.
-/

namespace SurfaceFeed

/-- A scanner with its bytes in a buffer, and offsets into the buffer. -/
structure Buffer where
  bytes : Bytes
  scanned : Nat
  inList : Bool
  depth : Nat
  inString : Bool
  escapeNext : Bool
  objectStart : Option Nat
  objects : Nat
  closed : Bool

namespace Buffer

def start : Buffer :=
  ⟨[], 0, false, 0, false, false, none, 0, false⟩

/-! ## Checked offsets -/

def minus? (a b : Nat) : Option Nat :=
  if b ≤ a then some (a - b) else none

def slice? (bytes : Bytes) (first last : Nat) : Option Bytes :=
  if first ≤ last + 1 ∧ last < bytes.length then some ((bytes.drop first).take (last + 1 - first))
  else none

def drop? (count : Nat) (bytes : Bytes) : Option Bytes :=
  if count ≤ bytes.length then some (bytes.drop count) else none

/-! ## Reading a byte -/

def endList (s : Buffer) : Buffer × Option Signal :=
  if s.objects = 0 then ({ s with inList := false }, none)
  else ({ s with inList := false, closed := true, bytes := [] }, some .closed)

def beginObject (s : Buffer) (here : Nat) : Buffer :=
  if s.depth = 0 then
    { s with objectStart := some here, objects := s.objects + 1, depth := s.depth + 1 }
  else { s with depth := s.depth + 1 }

def endObject (s : Buffer) (here : Nat) : Option (Buffer × Option Signal) := do
  let depth ← minus? s.depth 1
  if depth = 0 then
    match s.objectStart with
    | none => some ({ s with depth := depth }, none)
    | some first => do
        let text ← slice? s.bytes first here
        some ({ s with depth := depth, objectStart := none }, some (.object text))
  else some ({ s with depth := depth }, none)

def turn (s : Buffer) (b : UInt8) (here : Nat) : Option (Buffer × Option Signal) :=
  if b == 0x5b && !s.inList then some ({ s with inList := true, objects := 0 }, none)
  else if b == 0x5d && s.inList && s.depth == 0 then some s.endList
  else if b == 0x7b && s.inList then some (s.beginObject here, none)
  else if b == 0x7d && s.inList && decide (0 < s.depth) then s.endObject here
  else some (s, none)

def read (s : Buffer) (b : UInt8) (here : Nat) : Option (Buffer × Option Signal) :=
  if s.escapeNext then some ({ s with escapeNext := false }, none)
  else if s.inString then
    if b == 0x5c then some ({ s with escapeNext := true }, none)
    else if b == 0x22 then some ({ s with inString := false }, none)
    else some (s, none)
  else if b == 0x22 then some ({ s with inString := true }, none)
  else s.turn b here

/-! ## Reading a chunk -/

def scanFrom : Nat -> Nat -> Buffer -> Option (Buffer × List Signal)
  | 0, here, s => some ({ s with scanned := here }, [])
  | left + 1, here, s => do
      let b ← s.bytes[here]?
      let (s, signal) ← s.read b here
      if s.closed then some ({ s with scanned := s.bytes.length }, signal.toList)
      else do
        let (s, signals) ← scanFrom left (here + 1) s
        some (s, signal.toList ++ signals)

def scan (s : Buffer) : Option (Buffer × List Signal) :=
  scanFrom (s.bytes.length - s.scanned) s.scanned s

def lastOpening? : Bytes -> Option Nat
  | [] => none
  | b :: bytes =>
      match lastOpening? bytes with
      | some offset => some (offset + 1)
      | none => if b == 0x5b then some 0 else none

/-- The offset from which on the bytes may still be of use. -/
def useful (s : Buffer) : Nat :=
  match s.objectStart with
  | some first => first
  | none => if s.inList then s.scanned else (lastOpening? s.bytes).getD 0

def compact (s : Buffer) : Option Buffer :=
  if s.useful = 0 then some s
  else do
    let bytes ← drop? s.useful s.bytes
    let scanned ← minus? s.scanned s.useful
    match s.objectStart with
    | none => some { s with bytes := bytes, scanned := scanned }
    | some first => do
        let first ← minus? first s.useful
        some { s with bytes := bytes, scanned := scanned, objectStart := some first }

def feed (s : Buffer) (chunk : Bytes) : Option (Buffer × List Signal) :=
  if s.closed then some (s, [])
  else do
    let (s, signals) ← { s with bytes := s.bytes ++ chunk }.scan
    let s ← s.compact
    some (s, signals)

def feedAll (s : Buffer) : List Bytes -> Option (Buffer × List Signal)
  | [] => some (s, [])
  | chunk :: chunks => do
      let (s, signals) ← s.feed chunk
      let (s, more) ← s.feedAll chunks
      some (s, signals ++ more)

/-! ## The scanner that it is -/

def lexical (s : Buffer) : Lexical :=
  if s.escapeNext then .escaped else if s.inString then .quoted else .plain

def place (s : Buffer) : Place :=
  if s.closed then .closed
  else if s.inList then
    if s.depth = 0 then .list s.bytes.reverse (decide (0 < s.objects))
    else .object s.bytes.reverse s.depth
  else .outside s.bytes.reverse

/--
A scanner that has read the bytes `read` of its buffer stands at a place.  While an object is open
the offset of its beginning cuts what has been read; before any has begun, what the place holds is
what follows the last bracket that opens.
-/
inductive Stands (read : Bytes) (s : Buffer) : Place -> Prop where
  | outside {held : Bytes} (hlist : s.inList = false) (hdepth : s.depth = 0)
      (hstart : s.objectStart = none) (hopen : s.closed = false)
      (hheld : held.reverse = Scanner.fromLastOpening read) : Stands read s (.outside held)
  | list {held : Bytes} {anyObject : Bool} (hlist : s.inList = true) (hdepth : s.depth = 0)
      (hstart : s.objectStart = none) (hopen : s.closed = false)
      (hany : anyObject = decide (0 < s.objects))
      (hheld : anyObject = false -> held.reverse = Scanner.fromLastOpening read) :
      Stands read s (.list held anyObject)
  | object {front held : Bytes} (hlist : s.inList = true) (hdepth : 0 < s.depth)
      (hstart : s.objectStart = some front.length) (hopen : s.closed = false)
      (hobjects : 0 < s.objects) (hread : read = front ++ held.reverse) :
      Stands read s (.object held s.depth)
  | closed (hlist : s.inList = false) (hdepth : s.depth = 0) (hstart : s.objectStart = none)
      (hclosed : s.closed = true) (hbytes : s.bytes = []) : Stands read s .closed

namespace Stands

variable {read : Bytes} {s : Buffer} {p : Place}

theorem moved {bytes : Bytes} (h : Stands read s p) (hbytes : s.closed = true -> bytes = s.bytes)
    (scanned : Nat) (inString escapeNext : Bool) :
    Stands read { s with
      bytes := bytes, scanned := scanned, inString := inString, escapeNext := escapeNext } p := by
  cases h with
  | outside hlist hdepth hstart hopen hheld => exact .outside hlist hdepth hstart hopen hheld
  | list hlist hdepth hstart hopen hany hheld =>
      exact .list hlist hdepth hstart hopen hany hheld
  | object hlist hdepth hstart hopen hobjects hread =>
      exact .object hlist hdepth hstart hopen hobjects hread
  | closed hlist hdepth hstart hclosed hnil =>
      exact .closed hlist hdepth hstart hclosed ((hbytes hclosed).trans hnil)

theorem closed_eq (h : Stands read s p) : p.isClosed = s.closed := by
  cases h with
  | outside _ _ _ hopen _ => exact hopen.symm
  | list _ _ _ hopen _ _ => exact hopen.symm
  | object _ _ _ hopen _ _ => exact hopen.symm
  | closed _ _ _ hclosed _ => exact hclosed.symm

theorem reverse_hold {held : Bytes} (h : held.reverse = Scanner.fromLastOpening read)
    (b : UInt8) : (if b == 0x5b then [b] else b :: held).reverse =
      Scanner.fromLastOpening (read ++ [b]) := by
  rw [Scanner.fromLastOpening_concat, ← h]
  by_cases hb : b = 0x5b
  · subst hb
    rfl
  · rw [if_neg hb, if_neg (by simpa using hb), List.reverse_cons]

theorem hold (h : Stands read s p) (b : UInt8) : Stands (read ++ [b]) s (p.hold b) := by
  cases h with
  | outside hlist hdepth hstart hopen hheld =>
      exact .outside hlist hdepth hstart hopen (reverse_hold hheld b)
  | list hlist hdepth hstart hopen hany hheld =>
      exact .list hlist hdepth hstart hopen hany fun hnone => reverse_hold (hheld hnone) b
  | object hlist hdepth hstart hopen hobjects hread =>
      refine .object hlist hdepth hstart hopen hobjects ?_
      rw [hread, List.reverse_cons, List.append_assoc]
  | closed hlist hdepth hstart hclosed hbytes => exact .closed hlist hdepth hstart hclosed hbytes

end Stands

/-! ## What a byte does -/

structure Keeps (s s' : Buffer) : Prop where
  bytes : s'.closed = false -> s'.bytes = s.bytes
  inString : s'.inString = s.inString
  escapeNext : s'.escapeNext = s.escapeNext

theorem Keeps.refl (s : Buffer) : Keeps s s :=
  ⟨fun _ => rfl, rfl, rfl⟩

/--
The scanner with a buffer has a next state, which stands where the one without offsets stands next,
with the same signal.
-/
def Follows (read : Bytes) (s : Buffer) (next : Option (Buffer × Option Signal))
    (place : Place × Option Signal) : Prop :=
  exists s', next = some (s', place.2) ∧ Stands read s' place.1 ∧ Keeps s s'

section Turn

variable {before rest : Bytes} {s : Buffer} {b : UInt8}

theorem turn_outside {read held : Bytes} (h : Stands read s (.outside held)) (here : Nat) :
    Follows read s (s.turn b here) ((Place.outside held).turn b) := by
  cases h with
  | outside hlist hdepth hstart hopen hheld =>
      by_cases hopening : b = 0x5b
      · subst hopening
        rw [turn, hlist]
        exact ⟨_, rfl, .list rfl hdepth hstart hopen rfl fun _ => hheld, fun _ => rfl, rfl, rfl⟩
      · simp only [turn, hlist, Place.turn, beq_eq_false_iff_ne.2 hopening, Bool.and_false,
          Bool.false_and, Bool.false_eq_true, if_false]
        exact ⟨s, rfl, .outside hlist hdepth hstart hopen hheld, .refl s⟩

theorem endList_follows {read held : Bytes} {anyObject : Bool}
    (h : Stands read s (.list held anyObject)) :
    Follows read s (some s.endList) ((Place.list held anyObject).turn 0x5d) := by
  cases h with
  | list hlist hdepth hstart hopen hany hheld =>
      show Follows read s (some s.endList)
        (if anyObject then (.closed, some .closed) else (.outside held, none))
      rw [endList]
      cases anyObject with
      | false =>
          have hobjects : s.objects = 0 := Nat.eq_zero_of_not_pos (of_decide_eq_false hany.symm)
          rw [if_pos hobjects]
          exact ⟨_, rfl, .outside rfl hdepth hstart hopen (hheld rfl), fun _ => rfl, rfl, rfl⟩
      | true =>
          have hobjects : s.objects ≠ 0 := Nat.ne_of_gt (of_decide_eq_true hany.symm)
          rw [if_neg hobjects]
          exact ⟨_, rfl, .closed rfl hdepth hstart rfl rfl, nofun, rfl, rfl⟩

theorem turn_list {held : Bytes} {anyObject : Bool}
    (h : Stands (before ++ [b]) s (.list held anyObject)) :
    Follows (before ++ [b]) s (s.turn b before.length) ((Place.list held anyObject).turn b) := by
  have hstands := h
  cases h with
  | list hlist hdepth hstart hopen hany hheld =>
      by_cases hend : b = 0x5d
      · subst hend
        rw [turn, hlist, hdepth]
        exact endList_follows hstands
      by_cases hbegin : b = 0x7b
      · subst hbegin
        rw [turn, hlist]
        show Follows _ s (some (s.beginObject before.length, none)) (.object [0x7b] 1, none)
        rw [beginObject, if_pos hdepth, hdepth]
        refine ⟨_, rfl, ?_, fun _ => rfl, rfl, rfl⟩
        exact .object hlist Nat.one_pos rfl hopen (Nat.succ_pos _) rfl
      · simp only [turn, hlist, hdepth, Place.turn, beq_eq_false_iff_ne.2 hend,
          beq_eq_false_iff_ne.2 hbegin, Bool.not_true, Bool.and_false, Bool.false_and,
          Nat.lt_irrefl, decide_false, Bool.false_eq_true, if_false]
        exact ⟨s, rfl, hstands, .refl s⟩

/-- The bytes of an object that ends are a slice of the buffer. -/
theorem slice?_of_object {front held : Bytes} (hread : before ++ [b] = front ++ held) :
    slice? (before ++ b :: rest) front.length before.length = some held := by
  have hlength : before.length + 1 = front.length + held.length := by
    rw [← List.length_append, ← hread, List.length_append]
    rfl
  have hbytes : before ++ b :: rest = front ++ (held ++ rest) := by
    rw [← List.append_assoc, ← hread, List.append_assoc]
    rfl
  have hfirst : front.length ≤ before.length + 1 := by omega
  have hlast : before.length < (before ++ b :: rest).length := by
    rw [List.length_append, List.length_cons]
    omega
  have hcount : before.length + 1 - front.length = held.length := by omega
  rw [slice?, if_pos ⟨hfirst, hlast⟩, hcount, hbytes, List.drop_left, List.take_left]

theorem endObject_follows {held : Bytes} {depth : Nat}
    (h : Stands (before ++ [b]) s (.object held depth)) (hbytes : s.bytes = before ++ b :: rest) :
    Follows (before ++ [b]) s (s.endObject before.length)
      ((Place.object held depth).turn 0x7d) := by
  cases h with
  | @object front _ hlist hdepth hstart hopen hobjects hread =>
      have hminus : minus? s.depth 1 = some (s.depth - 1) := if_pos hdepth
      show Follows _ s (s.endObject before.length)
        (if s.depth ≤ 1 then (.list [] true, some (.object held.reverse))
          else (.object held (s.depth - 1), none))
      rw [endObject, hminus, Option.bind_eq_bind, Option.bind_some]
      by_cases hlast : s.depth ≤ 1
      · have hzero : s.depth - 1 = 0 := Nat.sub_eq_zero_of_le hlast
        have hslice : slice? s.bytes front.length before.length = some held.reverse := by
          rw [hbytes]
          exact slice?_of_object hread
        rw [if_pos hlast, if_pos hzero, hstart]
        dsimp only
        rw [hslice]
        exact ⟨_, rfl, .list hlist hzero rfl hopen (decide_eq_true hobjects).symm nofun,
          fun _ => rfl, rfl, rfl⟩
      · have hpos : 0 < s.depth - 1 := Nat.sub_pos_of_lt (Nat.lt_of_not_le hlast)
        rw [if_neg hlast, if_neg (Nat.ne_of_gt hpos)]
        refine ⟨_, rfl, ?_, fun _ => rfl, rfl, rfl⟩
        exact .object hlist hpos hstart hopen hobjects hread

theorem turn_object {held : Bytes} {depth : Nat}
    (h : Stands (before ++ [b]) s (.object held depth)) (hbytes : s.bytes = before ++ b :: rest) :
    Follows (before ++ [b]) s (s.turn b before.length) ((Place.object held depth).turn b) := by
  have hstands := h
  cases h with
  | object hlist hdepth hstart hopen hobjects hread =>
      by_cases hbegin : b = 0x7b
      · subst hbegin
        rw [turn, hlist]
        show Follows _ s (some (s.beginObject before.length, none))
          (.object held (s.depth + 1), none)
        rw [beginObject, if_neg (Nat.ne_of_gt hdepth)]
        refine ⟨_, rfl, ?_, fun _ => rfl, rfl, rfl⟩
        exact .object hlist (Nat.succ_pos _) hstart hopen hobjects hread
      by_cases hend : b = 0x7d
      · subst hend
        rw [turn, hlist, decide_eq_true hdepth]
        exact endObject_follows hstands hbytes
      · have hnot : (s.depth == 0) = false := beq_eq_false_iff_ne.2 (Nat.ne_of_gt hdepth)
        simp only [turn, hlist, hnot, Place.turn, beq_eq_false_iff_ne.2 hend,
          beq_eq_false_iff_ne.2 hbegin, Bool.not_true, Bool.and_false, Bool.false_and,
          Bool.false_eq_true, if_false]
        exact ⟨s, rfl, hstands, .refl s⟩

theorem turn_follows {p : Place} (h : Stands (before ++ [b]) s p) (hopen : s.closed = false)
    (hbytes : s.bytes = before ++ b :: rest) :
    Follows (before ++ [b]) s (s.turn b before.length) (p.turn b) := by
  cases p with
  | outside held => exact turn_outside h _
  | list held anyObject => exact turn_list h
  | object held depth => exact turn_object h hbytes
  | closed => exact absurd (h.closed_eq.trans hopen) nofun

end Turn

/--
The scanner with a buffer stands, inside strings too, where one without offsets does once it has
read the bytes `read`.  How the bytes after the end of the list look does not matter.
-/
structure Reads (read : Bytes) (s : Buffer) (t : Scanner) : Prop where
  place : Stands read s t.place
  lexical : s.closed = false -> s.lexical = t.lexical
  inString : s.escapeNext = true -> s.inString = true

theorem turn_quote (p : Place) : p.turn 0x22 = (p, none) := by
  cases p <;> rfl

theorem outside_of_lexical {s : Buffer} (h : s.lexical = .plain) :
    s.escapeNext = false ∧ s.inString = false := by
  rw [lexical] at h
  cases hescape : s.escapeNext with
  | true =>
      rw [if_pos hescape] at h
      cases h
  | false =>
      rw [if_neg (Bool.eq_false_iff.1 hescape)] at h
      cases hstring : s.inString with
      | true =>
          rw [if_pos hstring] at h
          cases h
      | false => exact ⟨rfl, rfl⟩

theorem read_inside {s : Buffer} {b : UInt8} {here : Nat} (hplain : s.lexical ≠ .plain)
    (hstring : s.escapeNext = true -> s.inString = true) :
    exists inString escapeNext,
      let s' := { s with inString := inString, escapeNext := escapeNext }
      s.read b here = some (s', none) ∧ s'.lexical = s.lexical.next b ∧
        (escapeNext = true -> inString = true) := by
  cases hescape : s.escapeNext with
  | true =>
      have hlexical : s.lexical = .escaped := if_pos hescape
      rw [hlexical, Buffer.read, if_pos hescape]
      exact ⟨s.inString, false, rfl, if_pos (hstring hescape), nofun⟩
  | false =>
      have hnot : ¬ s.escapeNext = true := Bool.eq_false_iff.1 hescape
      cases hinside : s.inString with
      | false =>
          have hlexical : s.lexical = .plain := by
            rw [lexical, if_neg hnot, hinside]
            rfl
          exact absurd hlexical hplain
      | true =>
          have hlexical : s.lexical = .quoted := (if_neg hnot).trans (if_pos hinside)
          rw [Buffer.read, if_neg hnot, if_pos hinside]
          by_cases hslash : b = 0x5c
          · subst hslash
            rw [hlexical]
            exact ⟨s.inString, true, rfl, rfl, fun _ => hinside⟩
          by_cases hquote : b = 0x22
          · subst hquote
            rw [hlexical]
            exact ⟨false, s.escapeNext, rfl, if_neg hnot, fun h => absurd h hnot⟩
          · have hnext : Lexical.quoted.next b = .quoted := by
              rw [Lexical.next, if_neg (by simpa using hslash), if_neg (by simpa using hquote)]
            rw [if_neg (by simpa using hslash), if_neg (by simpa using hquote), hlexical, hnext]
            exact ⟨s.inString, s.escapeNext, rfl, hlexical, fun _ => hinside⟩

/-- A byte takes the scanner with a buffer where it takes the one without offsets. -/
theorem Reads.read {before rest : Bytes} {s : Buffer} {t : Scanner} {b : UInt8}
    (h : Reads before s t) (hopen : s.closed = false) (hbytes : s.bytes = before ++ b :: rest) :
    exists s', s.read b before.length = some (s', (t.step b).2) ∧
      Reads (before ++ [b]) s' (t.step b).1 ∧ (s'.closed = false -> s'.bytes = s.bytes) := by
  rcases t with ⟨l, p⟩
  have hlexical : s.lexical = l := h.lexical hopen
  have hheld : Stands (before ++ [b]) s (p.hold b) := h.place.hold b
  cases l with
  | plain =>
      rcases outside_of_lexical hlexical with ⟨hescape, hstring⟩
      rw [Buffer.read, hescape, hstring]
      by_cases hquote : b = 0x22
      · subst hquote
        have hplace := hheld.moved (fun _ => rfl) s.scanned true false
        dsimp only [Scanner.step]
        rw [turn_quote]
        exact ⟨_, rfl, ⟨hplace, fun _ => rfl, nofun⟩, fun _ => rfl⟩
      · rcases turn_follows hheld hopen hbytes with ⟨s', hturn, hplace, hkeeps⟩
        rw [if_neg (by decide), if_neg (by decide), if_neg (by simpa using hquote)]
        have hnext : Lexical.plain.next b = .plain := if_neg (by simpa using hquote)
        have hkept : s'.lexical = .plain := by
          rw [Buffer.lexical, hkeeps.escapeNext, hkeeps.inString, hescape, hstring]
          rfl
        refine ⟨s', hturn, ⟨hplace, fun _ => hkept.trans hnext.symm, ?_⟩, hkeeps.bytes⟩
        intro h
        rw [hkeeps.escapeNext, hescape] at h
        cases h
  | quoted | escaped =>
      have hplain : s.lexical ≠ .plain := by
        rw [hlexical]
        exact nofun
      rcases @read_inside s b before.length hplain h.inString with
        ⟨inString, escapeNext, hread, hnext, hinside⟩
      rw [hlexical] at hnext
      exact ⟨_, hread, ⟨hheld.moved (fun _ => rfl) _ inString escapeNext, fun _ => hnext, hinside⟩,
        fun _ => rfl⟩

/-! ## What a chunk does -/

theorem scanFrom_eq {before rest : Bytes} {s : Buffer} {t : Scanner} (h : Reads before s t)
    (hopen : s.closed = false) (hbytes : s.bytes = before ++ rest) :
    exists s', scanFrom rest.length before.length s = some (s', (t.scan rest).2) ∧
      Reads s'.bytes s' (t.scan rest).1 ∧ s'.scanned = s'.bytes.length := by
  induction rest generalizing before s t with
  | nil =>
      rw [List.append_nil] at hbytes
      subst hbytes
      exact ⟨_, rfl, ⟨h.place.moved (fun _ => rfl) _ _ _, h.lexical, h.inString⟩, rfl⟩
  | cons b rest ih =>
      have hbyte : s.bytes[before.length]? = some b := by
        rw [hbytes, List.getElem?_append_right (Nat.le_refl _), Nat.sub_self]
        rfl
      rcases h.read hopen hbytes with ⟨s', hread, hreads, hkept⟩
      rw [List.length_cons, scanFrom, hbyte]
      dsimp only [Option.bind_eq_bind, Option.bind_some]
      rw [hread]
      dsimp only [Option.bind_some]
      cases hclosed : s'.closed with
      | true =>
          -- what is left of the chunk is not looked at
          have hplace : (t.step b).1.place = .closed :=
            Place.eq_closed_of_isClosed (hreads.place.closed_eq.trans hclosed)
          have hrest := Scanner.scan_closed hplace rest
          have hsignals : (t.scan (b :: rest)).2 = (t.step b).2.toList := by
            rw [Scanner.scan_cons]
            dsimp only
            rw [hrest.2, List.append_nil]
          have hstands := hreads.place
          rw [hplace] at hstands
          cases hstands with
          | closed hlist hdepth hstart _ hbytes =>
              rw [hsignals]
              refine ⟨_, rfl, ⟨?_, nofun, hreads.inString⟩, rfl⟩
              rw [show (t.scan (b :: rest)).1.place = .closed from hrest.1]
              exact .closed hlist hdepth hstart rfl hbytes
      | false =>
          have hsplit : s'.bytes = (before ++ [b]) ++ rest := by
            rw [hkept hclosed, hbytes, List.append_assoc]
            rfl
          rcases ih hreads hclosed hsplit with ⟨s'', hscan, hreads'', hscanned⟩
          rw [List.length_append, List.length_singleton] at hscan
          rw [if_neg (by decide), hscan]
          exact ⟨s'', rfl, hreads'', hscanned⟩

/-! ## Bytes of no more use -/

theorem lastOpening?_eq_none {bytes : Bytes} (h : lastOpening? bytes = none) : 0x5b ∉ bytes := by
  induction bytes with
  | nil => exact List.not_mem_nil
  | cons b bytes ih =>
      rw [lastOpening?] at h
      cases hrest : lastOpening? bytes with
      | some offset =>
          rw [hrest] at h
          cases h
      | none =>
          rw [hrest] at h
          intro hmem
          rcases List.mem_cons.1 hmem with hb | hmem
          · subst hb
            cases h
          · exact ih hrest hmem

theorem lastOpening?_eq_some {bytes : Bytes} {offset : Nat} (h : lastOpening? bytes = some offset) :
    exists front tail, bytes = front ++ 0x5b :: tail ∧ front.length = offset ∧ 0x5b ∉ tail := by
  induction bytes generalizing offset with
  | nil => cases h
  | cons b bytes ih =>
      rw [lastOpening?] at h
      cases hrest : lastOpening? bytes with
      | some below =>
          rw [hrest] at h
          cases h
          rcases ih hrest with ⟨front, tail, rfl, rfl, htail⟩
          exact ⟨b :: front, tail, rfl, rfl, htail⟩
      | none =>
          rw [hrest] at h
          dsimp only at h
          split at h
          · next hb =>
              cases h
              rw [beq_iff_eq.1 hb]
              exact ⟨[], bytes, rfl, rfl, lastOpening?_eq_none hrest⟩
          · cases h

theorem exists_cut_lastOpening (bytes : Bytes) :
    exists front kept, bytes = front ++ kept ∧ (lastOpening? bytes).getD 0 = front.length ∧
      Scanner.fromLastOpening bytes = kept ∧ Scanner.fromLastOpening kept = kept := by
  cases hlast : lastOpening? bytes with
  | none =>
      have hwhole : Scanner.fromLastOpening bytes = bytes := if_neg (lastOpening?_eq_none hlast)
      exact ⟨[], bytes, rfl, rfl, hwhole, hwhole⟩
  | some offset =>
      rcases lastOpening?_eq_some hlast with ⟨front, tail, rfl, hfront, htail⟩
      have hcons := Scanner.fromLastOpening_cons htail
      refine ⟨front, 0x5b :: tail, rfl, hfront.symm, ?_, hcons⟩
      rw [Scanner.fromLastOpening_append front List.mem_cons_self, hcons]

/-- The scanner with a buffer has gone through it, and its bytes are those that are held. -/
structure Settled (s : Buffer) (t : Scanner) : Prop where
  reads : Reads s.bytes s t
  scanned : s.scanned = s.bytes.length
  held : t.place.held = s.bytes

theorem compact_of_useful {s : Buffer} {front kept : Bytes} (hbytes : s.bytes = front ++ kept)
    (huseful : s.useful = front.length) (hscanned : s.scanned = s.bytes.length) :
    s.compact = some { s with
      bytes := kept, scanned := kept.length, objectStart := s.objectStart.map (fun _ => 0) } := by
  have hlength : s.bytes.length = front.length + kept.length := by
    rw [hbytes, List.length_append]
  have hfirst : forall first, s.objectStart = some first -> s.useful = first := by
    intro first hstart
    rw [useful, hstart]
  by_cases hzero : s.useful = 0
  · have hkept : s.bytes = kept := by
      rw [hbytes, List.eq_nil_of_length_eq_zero (huseful.symm.trans hzero), List.nil_append]
    have hstart : s.objectStart.map (fun _ => 0) = s.objectStart := by
      cases hstart : s.objectStart with
      | none => rfl
      | some first => exact congrArg some (hzero.symm.trans (hfirst first hstart))
    rw [compact, if_pos hzero, hstart, ← hkept, ← hscanned]
  · have hdrop : drop? s.useful s.bytes = some kept := by
      rw [drop?, if_pos (by omega), huseful, hbytes, List.drop_left]
    have hminus : minus? s.scanned s.useful = some kept.length := by
      rw [minus?, if_pos (by omega), hscanned, hlength, huseful, Nat.add_sub_cancel_left]
    rw [compact, if_neg hzero, hdrop, hminus]
    cases hstart : s.objectStart with
    | none => rfl
    | some first =>
        have hself : minus? first s.useful = some 0 := by
          rw [hfirst first hstart, minus?, if_pos (Nat.le_refl first), Nat.sub_self]
        dsimp only [Option.bind_eq_bind, Option.bind_some]
        rw [hself]
        rfl

/-- What is dropped after a chunk is what the scanner without offsets lets go of. -/
theorem compact_eq {s : Buffer} {t : Scanner} (h : Reads s.bytes s t)
    (hscanned : s.scanned = s.bytes.length) :
    exists s', s.compact = some s' ∧ Settled s' t.settle := by
  rcases t with ⟨l, p⟩
  have hplace : Stands s.bytes s p := h.place
  cases hplace with
  | @outside held hlist hdepth hstart hopen hheld =>
      rcases exists_cut_lastOpening s.bytes with ⟨front, kept, hbytes, hfront, hkept, hself⟩
      have huseful : s.useful = front.length := by
        rw [useful, hstart, hlist]
        exact hfront
      have hcompact := compact_of_useful hbytes huseful hscanned
      rw [hstart] at hcompact
      rw [hkept] at hheld
      exact ⟨_, hcompact, ⟨.outside hlist hdepth rfl hopen (hheld.trans hself.symm), h.lexical,
        h.inString⟩, rfl, hheld⟩
  | @list held anyObject hlist hdepth hstart hopen hany hheld =>
      have huseful : s.useful = s.bytes.length := by
        rw [useful, hstart, hlist]
        exact hscanned
      have hcompact := compact_of_useful (List.append_nil _).symm huseful hscanned
      rw [hstart] at hcompact
      exact ⟨_, hcompact, ⟨.list hlist hdepth rfl hopen hany fun _ => rfl, h.lexical,
        h.inString⟩, rfl, rfl⟩
  | @object front held hlist hdepth hstart hopen hobjects hread =>
      have huseful : s.useful = front.length := by
        rw [useful, hstart]
      have hcompact := compact_of_useful hread huseful hscanned
      rw [hstart] at hcompact
      exact ⟨_, hcompact, ⟨@Stands.object _ _ [] held hlist hdepth rfl hopen hobjects rfl,
        h.lexical, h.inString⟩, rfl, rfl⟩
  | closed hlist hdepth hstart hclosed hbytes =>
      have huseful : s.useful = 0 := by
        rw [useful, hstart, hlist, hbytes]
        rfl
      have hcompact : s.compact = some s := if_pos huseful
      exact ⟨s, hcompact, ⟨.closed hlist hdepth hstart hclosed hbytes, h.lexical, h.inString⟩,
        hscanned, hbytes.symm⟩

/-- While the list has not ended, a chunk takes the two scanners to the same state. -/
theorem Settled.feed {s : Buffer} {t : Scanner} (h : Settled s t) (hopen : s.closed = false)
    (chunk : Bytes) :
    exists s', s.feed chunk = some (s', (t.feed chunk).2) ∧ Settled s' (t.feed chunk).1 := by
  have hreads : Reads s.bytes { s with bytes := s.bytes ++ chunk } t :=
    ⟨h.reads.place.moved (fun htrue => absurd (hopen.symm.trans htrue) nofun) _ _ _, h.reads.lexical, h.reads.inString⟩
  rcases scanFrom_eq hreads hopen rfl with ⟨s', hscan, hafter, hscanned⟩
  rcases compact_eq hafter hscanned with ⟨s'', hcompact, hsettled⟩
  have hleft : (s.bytes ++ chunk).length - s.scanned = chunk.length := by
    rw [h.scanned, List.length_append, Nat.add_sub_cancel_left]
  rw [← h.scanned] at hscan
  refine ⟨s'', ?_, hsettled⟩
  rw [Buffer.feed, if_neg (Bool.eq_false_iff.1 hopen), scan]
  dsimp only
  rw [hleft, hscan]
  dsimp only [Option.bind_eq_bind, Option.bind_some]
  rw [hcompact]
  rfl

def Reacts (a : Assembler) (signals : List Signal) (a' : Assembler) (events : List Event) : Prop :=
  { (a.react signals).1 with scanner := a'.scanner } = a' ∧ (a.react signals).2 = events

theorem Reacts.append {a a' a'' : Assembler} {signals signals' : List Signal}
    {events events' : List Event} (h : Reacts a signals a' events)
    (h' : Reacts a' signals' a'' events') :
    Reacts a (signals ++ signals') a'' (events ++ events') := by
  rcases h with ⟨hfirst, hevents⟩
  rcases h' with ⟨hnext, hmore⟩
  rw [← hfirst, Assembler.react_with_scanner] at hnext hmore
  rw [Reacts, Assembler.react_append]
  exact ⟨hnext, congrArg₂ List.append hevents hmore⟩

theorem Settled.feed_assembler {s : Buffer} {a : Assembler} (h : Settled s a.scanner)
    (hfinished : a.isFinished = false) (chunk : Bytes) :
    exists s' signals, s.feed chunk = some (s', signals) ∧ Settled s' (a.feed chunk).1.scanner ∧
      Reacts a signals (a.feed chunk).1 (a.feed chunk).2 := by
  have hover : a.isOver = s.closed := by
    rw [Assembler.isOver, hfinished, Bool.or_false]
    exact h.reads.place.closed_eq
  cases hclosed : s.closed with
  | true =>
      rw [Assembler.feed_of_isOver (hover.trans hclosed)]
      exact ⟨s, [], if_pos hclosed, h, rfl, rfl⟩
  | false =>
      rcases h.feed hclosed chunk with ⟨s', hfeed, hsettled⟩
      rw [Assembler.feed_of_not_isOver (hover.trans hclosed)]
      exact ⟨s', _, hfeed, hsettled, rfl, rfl⟩

theorem Settled.feedAll {s : Buffer} {a : Assembler} (h : Settled s a.scanner)
    (hfinished : a.isFinished = false) (chunks : List Bytes) :
    exists s' signals, s.feedAll chunks = some (s', signals) ∧
      Settled s' (a.feedAll chunks).1.scanner ∧
      Reacts a signals (a.feedAll chunks).1 (a.feedAll chunks).2 := by
  induction chunks generalizing s a with
  | nil => exact ⟨s, [], rfl, h, rfl, rfl⟩
  | cons chunk chunks ih =>
      rcases h.feed_assembler hfinished chunk with ⟨s', signals, hfeed, hsettled, hreacts⟩
      rcases ih hsettled ((Assembler.isFinished_feed a chunk).trans hfinished) with
        ⟨s'', more, hrest, hsettled', hreacts'⟩
      refine ⟨s'', signals ++ more, ?_, hsettled', hreacts.append hreacts'⟩
      rw [Buffer.feedAll, hfeed]
      dsimp only [Option.bind_eq_bind, Option.bind_some]
      rw [hrest]
      rfl

theorem settled_start : Settled start Scanner.start :=
  ⟨⟨.outside rfl rfl rfl rfl rfl, fun _ => rfl, nofun⟩, rfl, rfl⟩

theorem Settled.place_eq {s : Buffer} {t : Scanner} (h : Settled s t) : s.place = t.place := by
  rcases t with ⟨l, p⟩
  have hheld : p.held.reverse = s.bytes.reverse := congrArg List.reverse h.held
  have hplace : Stands s.bytes s p := h.reads.place
  cases hplace with
  | outside hlist hdepth hstart hopen hkept =>
      rw [place, hopen, hlist, ← hheld, Place.held, List.reverse_reverse]
      rfl
  | list hlist hdepth hstart hopen hany hkept =>
      rw [place, hopen, hlist, if_neg (by decide), if_pos rfl, if_pos hdepth, ← hheld, Place.held,
        List.reverse_reverse, hany]
  | object hlist hdepth hstart hopen hobjects hread =>
      rw [place, hopen, hlist, if_neg (by decide), if_pos rfl, if_neg (Nat.ne_of_gt hdepth),
        ← hheld, Place.held, List.reverse_reverse]
  | closed hlist hdepth hstart hclosed hbytes => rw [place, if_pos hclosed]

end Buffer
end SurfaceFeed
