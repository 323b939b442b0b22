import SurfaceFeed.Text.Utf8

/-!
# Positions in a text

A position is named by its line and by the count of bytes since the last line
feed.  It follows from the bytes that stand before it.
-/

namespace SurfaceFeed

structure Position where
  line : Nat
  column : Nat
  deriving DecidableEq, Repr

namespace Position

def start : Position := ⟨1, 0⟩

def advance (p : Position) (b : UInt8) : Position :=
  if b == 0x0a then ⟨p.line + 1, 0⟩ else ⟨p.line, p.column + 1⟩

/-- The position after the given bytes. -/
def after (consumed : Bytes) : Position :=
  consumed.foldl advance start

def describe (p : Position) : String :=
  s!"line {p.line} column {p.column}"

end Position

/-- A reader that gives up leaves the cause and the bytes that it had not taken. -/
structure Stop (ε : Type) where
  cause : ε
  rest : Bytes

namespace Stop

variable {ε δ : Type}

/-- The position of a stop in the text that the reader was given. -/
def position (text : Bytes) (stop : Stop ε) : Position :=
  Position.after (text.take (text.length - stop.rest.length))

/-- A stop at the next byte, which counts as taken. -/
def atNext (cause : ε) (rest : Bytes) : Stop ε :=
  ⟨cause, rest.tail⟩

def mapCause (f : ε -> δ) (stop : Stop ε) : Stop δ :=
  ⟨f stop.cause, stop.rest⟩

end Stop

end SurfaceFeed
