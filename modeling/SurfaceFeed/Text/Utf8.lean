/-!
# UTF-8 texts

## Characters and broken runs

A byte text is read from left to right into pieces: the characters that it
encodes, and the runs of bytes that encode none.  A broken run is the longest
start of a character that the following byte rules out, or a single byte that
starts no character; a run that the end of the text cuts short is marked as cut.

The strict and the lenient reading of a text are two views of its pieces.
-/

namespace SurfaceFeed

abbrev Bytes := List UInt8

namespace Text

inductive Piece where
  | char (c : Char)
  | broken (bytes : Bytes) (cut : Bool)
  deriving DecidableEq, Repr

/--
Where the reader of a byte text stands: between characters, or after the bytes
`seen` (latest first) of a character that still needs `need` bytes, the next of
them from `low` to `high`.
-/
inductive Cursor where
  | between
  | inside (seen : Bytes) (code need : Nat) (low high : UInt8)
  deriving DecidableEq, Repr

namespace Cursor

/-- What the first byte of a character announces. -/
def start (b : UInt8) : Piece ⊕ Cursor :=
  let low5 := (b &&& 0x1f).toNat
  let low4 := (b &&& 0x0f).toNat
  let low3 := (b &&& 0x07).toNat
  if b < 0x80 then .inl (.char (Char.ofNat b.toNat))
  else if 0xc2 ≤ b && b ≤ 0xdf then .inr (.inside [b] low5 1 0x80 0xbf)
  else if b == 0xe0 then .inr (.inside [b] low4 2 0xa0 0xbf)
  else if b == 0xed then .inr (.inside [b] low4 2 0x80 0x9f)
  else if 0xe1 ≤ b && b ≤ 0xef then .inr (.inside [b] low4 2 0x80 0xbf)
  else if b == 0xf0 then .inr (.inside [b] low3 3 0x90 0xbf)
  else if 0xf1 ≤ b && b ≤ 0xf3 then .inr (.inside [b] low3 3 0x80 0xbf)
  else if b == 0xf4 then .inr (.inside [b] low3 3 0x80 0x8f)
  else .inl (.broken [b] false)

/-- The pieces and the position after a byte that stands between characters. -/
def begin (b : UInt8) : List Piece × Cursor :=
  match start b with
  | .inl piece => ([piece], between)
  | .inr next => ([], next)

/-- The pieces that byte `b` completes, and the position after it. -/
def advance : Cursor -> UInt8 -> List Piece × Cursor
  | between, b => begin b
  | inside seen code need low high, b =>
      if low ≤ b && b ≤ high then
        let code := code * 64 + (b &&& 0x3f).toNat
        if need ≤ 1 then ([.char (Char.ofNat code)], between)
        else ([], inside (b :: seen) code (need - 1) 0x80 0xbf)
      else
        let (after, next) := begin b
        (.broken seen.reverse false :: after, next)

/-- The pieces of the text that follows a position. -/
def pieces : Cursor -> Bytes -> List Piece
  | between, [] => []
  | inside seen _ _ _ _, [] => [.broken seen.reverse true]
  | cursor, b :: rest =>
      let (out, next) := advance cursor b
      out ++ pieces next rest

end Cursor

def pieces (text : Bytes) : List Piece :=
  Cursor.between.pieces text

/-! ## The two readings -/

/-- The bytes of a text, the encodings of its characters one after the other. -/
def encode (text : List Char) : Bytes :=
  text.flatMap String.utf8EncodeChar

def bytesOf (text : String) : Bytes :=
  encode text.toList

/-- The replacement character, read where the bytes encode nothing. -/
def replacement : Char := Char.ofNat 0xfffd

def Piece.lossy : Piece -> Char
  | .char c => c
  | .broken _ _ => replacement

/-- Every broken run reads as one replacement character. -/
def decodeLossy (text : Bytes) : List Char :=
  (pieces text).map Piece.lossy

/-- Where a byte text stops being a text: the offset and the bytes of its first broken run. -/
structure BrokenText where
  offset : Nat
  run : Bytes
  cut : Bool
  deriving DecidableEq, Repr

namespace BrokenText

def message (fault : BrokenText) : String :=
  if fault.cut then
    s!"incomplete utf-8 byte sequence from index {fault.offset}"
  else
    s!"invalid utf-8 sequence of {fault.run.length} bytes from index {fault.offset}"

end BrokenText

/-- The characters of pieces that begin at `offset`, or the first broken run. -/
def readPieces : Nat -> List Piece -> Except BrokenText (List Char)
  | _, [] => .ok []
  | offset, .char c :: rest => do
      let chars ← readPieces (offset + c.utf8Size) rest
      .ok (c :: chars)
  | offset, .broken run cut :: _ => .error ⟨offset, run, cut⟩

/-- The strict reading: every byte belongs to a character. -/
def decode (text : Bytes) : Except BrokenText (List Char) :=
  readPieces 0 (pieces text)

def decode? (text : Bytes) : Option (List Char) :=
  (decode text).toOption

end Text
end SurfaceFeed
