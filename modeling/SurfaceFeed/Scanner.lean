import SurfaceFeed.Text.Utf8

/-!
# Finding objects in a stream of bytes

## The scanner

The scanner looks for the first list that holds objects.  It follows brackets
and braces outside strings, byte by byte, and signals each object that ends at
the top level of the list, and then the end of the list.  What comes after that
is ignored.  A list without objects is passed over.

Between chunks it holds on to the bytes that may still be of use: the object
that is open, or, while no list is open, the bytes from the last opening bracket
on, and all of them if there is none.
-/

namespace SurfaceFeed

/-- Whether a byte stands in a string, and there after a backslash. -/
inductive Lexical where
  | plain
  | quoted
  | escaped
  deriving DecidableEq, Repr

/-- Where the scanner stands, with the bytes that it holds, the latest first. -/
inductive Place where
  | outside (held : Bytes)
  | list (held : Bytes) (anyObject : Bool)
  | object (held : Bytes) (depth : Nat)
  | closed
  deriving DecidableEq, Repr

inductive Signal where
  | object (text : Bytes)
  | closed
  deriving DecidableEq, Repr

structure Scanner where
  lexical : Lexical
  place : Place
  deriving DecidableEq, Repr

namespace Lexical

/-- The state after a byte. -/
def next : Lexical -> UInt8 -> Lexical
  | escaped, _ => quoted
  | quoted, b => if b == 0x5c then escaped else if b == 0x22 then plain else quoted
  | plain, b => if b == 0x22 then quoted else plain

end Lexical

namespace Place

/-- While no object is open, an opening bracket makes the bytes before it useless. -/
def hold : Place -> UInt8 -> Place
  | outside held, b => outside (if b == 0x5b then [b] else b :: held)
  | list held anyObject, b => list (if b == 0x5b then [b] else b :: held) anyObject
  | object held depth, b => object (b :: held) depth
  | closed, _ => closed

/-- What a byte outside strings does once it is held. -/
def turn : Place -> UInt8 -> Place × Option Signal
  | outside held, b => (if b == 0x5b then list held false else outside held, none)
  | list held anyObject, b =>
      if b == 0x5d then
        if anyObject then (closed, some .closed) else (outside held, none)
      else if b == 0x7b then (object [b] 1, none)
      else (list held anyObject, none)
  | object held depth, b =>
      if b == 0x7b then (object held (depth + 1), none)
      else if b == 0x7d then
        if depth ≤ 1 then (list [] true, some (.object held.reverse))
        else (object held (depth - 1), none)
      else (object held depth, none)
  | closed, _ => (closed, none)

/-- Between chunks, nothing is held for a list without an open object. -/
def settle : Place -> Place
  | list _ anyObject => list [] anyObject
  | place => place

/-- The bytes that are held, in the order in which they came. -/
def held : Place -> Bytes
  | outside held | list held _ | object held _ => held.reverse
  | closed => []

def isClosed : Place -> Bool
  | closed => true
  | _ => false

/-- The count of braces that are open. -/
def depth : Place -> Nat
  | object _ depth => depth
  | _ => 0

end Place

namespace Scanner

def start : Scanner := ⟨.plain, .outside []⟩

instance : Inhabited Scanner := ⟨start⟩

def step (s : Scanner) (b : UInt8) : Scanner × Option Signal :=
  let place := s.place.hold b
  match s.lexical with
  | .plain =>
      let (place, signal) := place.turn b
      (⟨s.lexical.next b, place⟩, signal)
  | .quoted | .escaped => (⟨s.lexical.next b, place⟩, none)

/-- The scanner after some bytes, and the signals on the way. -/
def scan (s : Scanner) : Bytes -> Scanner × List Signal
  | [] => (s, [])
  | b :: rest =>
      let (s, signal) := s.step b
      let (s, signals) := s.scan rest
      (s, signal.toList ++ signals)

def settle (s : Scanner) : Scanner :=
  ⟨s.lexical, s.place.settle⟩

/-- The scanner after a chunk. -/
def feed (s : Scanner) (chunk : Bytes) : Scanner × List Signal :=
  let (s, signals) := s.scan chunk
  (s.settle, signals)

@[simp] theorem scan_append (s : Scanner) (a b : Bytes) :
    s.scan (a ++ b) =
      (((s.scan a).1.scan b).1, (s.scan a).2 ++ ((s.scan a).1.scan b).2) := by
  induction a generalizing s with
  | nil => rfl
  | cons x rest ih => simp [scan, ih]

end Scanner
end SurfaceFeed
