import SurfaceFeed.Json.Number
import SurfaceFeed.Text.Quoted

/-!
# Reading JSON texts

## The reader

A text is read from its bytes.  Each function takes a part of a document from
the front of a text; where it gives up it leaves the bytes that it had not
taken, from which the position of the fault follows.

Lists and objects nest at most 127 deep.  The argument `fuel` is the length of
the whole text, which no loop over its bytes outlasts.
-/

namespace SurfaceFeed
namespace Json
namespace Reader

def isSpace (b : UInt8) : Bool :=
  b == 0x20 || b == 0x09 || b == 0x0a || b == 0x0d

def skipSpace (s : Bytes) : Bytes :=
  s.dropWhile isSpace

/-- Takes the letters of a word that its first letter announced. -/
def word (letters : Bytes) (value : Json) (s : Bytes) : Except (Stop Fault) (Json × Bytes) :=
  match letters, s with
  | [], s => .ok (value, s)
  | _ :: _, [] => .error ⟨.endInValue, []⟩
  | letter :: letters, b :: s =>
      if letter == b then word letters value s else .error ⟨.expectedWord, s⟩

/-! ## Strings -/

def hexEscape : Bytes -> Except (Stop Fault) (Nat × Bytes)
  | a :: b :: c :: d :: rest =>
      match Text.hexValue4? a b c d with
      | some n => .ok (n, rest)
      | none => .error ⟨.invalidEscape, rest⟩
  | _ => .error ⟨.endInString, []⟩

def isLeading (n : Nat) : Bool :=
  0xd800 ≤ n && n ≤ 0xdbff

def isTrailing (n : Nat) : Bool :=
  0xdc00 ≤ n && n ≤ 0xdfff

/-- The character of a surrogate pair. -/
def pairCode (leading trailing : Nat) : Nat :=
  (leading - 0xd800) * 0x400 + (trailing - 0xdc00) + 0x10000

def encodeCode (n : Nat) : Bytes :=
  String.utf8EncodeChar (Char.ofNat n)

/-- The second half of a surrogate pair. -/
def trailingEscape (leading : Nat) : Bytes -> Except (Stop Fault) (Bytes × Bytes)
  | [] => .error ⟨.endInString, []⟩
  | a :: s =>
      if a == 0x5c then
        match s with
        | [] => .error ⟨.endInString, []⟩
        | b :: s =>
            if b == 0x75 then do
              let (n, s) ← hexEscape s
              if isTrailing n then .ok (encodeCode (pairCode leading n), s)
              else .error ⟨.loneSurrogate, s⟩
            else .error ⟨.unpairedEscape, s⟩
      else .error ⟨.unpairedEscape, s⟩

def codeEscape (s : Bytes) : Except (Stop Fault) (Bytes × Bytes) := do
  let (n, s) ← hexEscape s
  if isTrailing n then .error ⟨.loneSurrogate, s⟩
  else if isLeading n then trailingEscape n s
  else .ok (encodeCode n, s)

def shortEscape? (b : UInt8) : Option UInt8 :=
  if b == 0x22 || b == 0x5c || b == 0x2f then some b
  else if b == 0x62 then some 0x08
  else if b == 0x66 then some 0x0c
  else if b == 0x6e then some 0x0a
  else if b == 0x72 then some 0x0d
  else if b == 0x74 then some 0x09
  else none

/-- What follows a backslash in a string. -/
def escape : Bytes -> Except (Stop Fault) (Bytes × Bytes)
  | [] => .error ⟨.endInString, []⟩
  | b :: s =>
      if b == 0x75 then codeEscape s
      else
        match shortEscape? b with
        | some c => .ok ([c], s)
        | none => .error ⟨.invalidEscape, s⟩

/-- The bytes of a string after its opening quote. -/
def stringBytes : Nat -> Bytes -> Except (Stop Fault) (Bytes × Bytes)
  | 0, _ => .error ⟨.endInString, []⟩
  | _ + 1, [] => .error ⟨.endInString, []⟩
  | fuel + 1, b :: s =>
      if b == 0x22 then .ok ([], s)
      else if b == 0x5c then do
        let (out, s) ← escape s
        let (more, s) ← stringBytes fuel s
        .ok (out ++ more, s)
      else if b < 0x20 then .error ⟨.controlCharacter, s⟩
      else do
        let (more, s) ← stringBytes fuel s
        .ok (b :: more, s)

/-- The last `count` bytes of a text. -/
def lastBytes (count : Nat) (s : Bytes) : Bytes :=
  s.drop (s.length - count)

/--
A string after its opening quote.  Its bytes are looked at once it is closed, and
a broken run is found by counting them back from the end.  Escapes are longer than
what they stand for, so one after the run moves the stop past its first byte.
-/
def string (fuel : Nat) (s : Bytes) : Except (Stop Fault) (String × Bytes) := do
  let (bytes, rest) ← stringBytes fuel s
  match Text.decode bytes with
  | .ok chars => .ok (String.ofList chars, rest)
  | .error fault =>
      let uncounted := bytes.length - fault.offset
      .error ⟨.invalidCodePoint, lastBytes (rest.length + uncounted) s⟩

/-! ## Lists and objects -/

/-- A list or an object goes on with a further member, or it has been closed. -/
inductive Next where
  | closed (rest : Bytes)
  | member (s : Bytes)

def nextItem (first : Bool) (s : Bytes) : Except (Stop Fault) Next :=
  match skipSpace s with
  | [] => .error ⟨.endInList, []⟩
  | b :: s =>
      if b == 0x5d then .ok (.closed s)
      else if first then .ok (.member (b :: s))
      else if b == 0x2c then
        match skipSpace s with
        | [] => .error ⟨.endInValue, []⟩
        | c :: s =>
            if c == 0x5d then .error ⟨.trailingComma, s⟩ else .ok (.member (c :: s))
      else .error ⟨.expectedListEnd, s⟩

/-- The text of a further member begins after the opening quote of its name. -/
def nextField (first : Bool) (s : Bytes) : Except (Stop Fault) Next :=
  match skipSpace s with
  | [] => .error ⟨.endInObject, []⟩
  | b :: s =>
      if b == 0x7d then .ok (.closed s)
      else if first then
        if b == 0x22 then .ok (.member s) else .error ⟨.keyNotString, s⟩
      else if b == 0x2c then
        match skipSpace s with
        | [] => .error ⟨.endInValue, []⟩
        | c :: s =>
            if c == 0x22 then .ok (.member s)
            else if c == 0x7d then .error ⟨.trailingComma, s⟩
            else .error ⟨.keyNotString, s⟩
      else .error ⟨.expectedObjectEnd, s⟩

def colon (s : Bytes) : Except (Stop Fault) Bytes :=
  match skipSpace s with
  | [] => .error ⟨.endInObject, []⟩
  | b :: s => if b == 0x3a then .ok s else .error ⟨.expectedColon, s⟩

/-- The items of a list after its opening bracket. -/
def items (item : Bytes -> Except (Stop Fault) (Json × Bytes)) :
    Nat -> Bool -> Bytes -> Except (Stop Fault) (List Json × Bytes)
  | 0, _, _ => .error ⟨.endInList, []⟩
  | fuel + 1, first, s => do
      match ← nextItem first s with
      | .closed s => .ok ([], s)
      | .member s =>
          let (value, s) ← item s
          let (values, s) ← items item fuel false s
          .ok (value :: values, s)

/-- The fields of an object after its opening brace, in the order of the text. -/
def fields (name : Bytes -> Except (Stop Fault) (String × Bytes))
    (item : Bytes -> Except (Stop Fault) (Json × Bytes)) :
    Nat -> Bool -> Bytes -> Except (Stop Fault) (List (String × Json) × Bytes)
  | 0, _, _ => .error ⟨.endInObject, []⟩
  | fuel + 1, first, s => do
      match ← nextField first s with
      | .closed s => .ok ([], s)
      | .member s =>
          let (key, s) ← name s
          let s ← colon s
          let (value, s) ← item s
          let (values, s) ← fields name item fuel false s
          .ok ((key, value) :: values, s)

/-! ## Documents -/

/-- A value in which lists and objects nest at most `depth` deep. -/
def value (fuel : Nat) : Nat -> Bytes -> Except (Stop Fault) (Json × Bytes)
  | depth, s =>
      match skipSpace s with
      | [] => .error ⟨.endInValue, []⟩
      | b :: s =>
          if b == 0x6e then word [0x75, 0x6c, 0x6c] .null s
          else if b == 0x74 then word [0x72, 0x75, 0x65] (.bool true) s
          else if b == 0x66 then word [0x61, 0x6c, 0x73, 0x65] (.bool false) s
          else if b == 0x2d then Number.read true s
          else if Number.isDigit b then Number.read false (b :: s)
          else if b == 0x22 then do
            let (chars, s) ← string fuel s
            .ok (.text chars, s)
          else if b == 0x5b then
            match depth with
            | 0 => .error ⟨.tooDeep, s⟩
            | depth + 1 => do
                let (values, s) ← items (value fuel depth) fuel true s
                .ok (.array values, s)
          else if b == 0x7b then
            match depth with
            | 0 => .error ⟨.tooDeep, s⟩
            | depth + 1 => do
                let (values, s) ← fields (string fuel) (value fuel depth) fuel true s
                .ok (.object (Fields.ofList values), s)
          else .error ⟨.expectedValue, s⟩

def deepest : Nat := 127

/-- The end of a text: nothing but space is left. -/
def finish (s : Bytes) : Except (Stop Fault) Unit :=
  match skipSpace s with
  | [] => .ok ()
  | _ :: s => .error ⟨.trailingCharacters, s⟩

def document (text : Bytes) : Except (Stop Fault) Json := do
  let (value, s) ← value text.length deepest text
  finish s
  .ok value

end Reader

/-- Why and where a text is no document. -/
structure ReadError where
  fault : Fault
  position : Position
  deriving DecidableEq, Repr

def ReadError.message (e : ReadError) : String :=
  s!"{e.fault.message} at {e.position.describe}"

/-- The document that a text of bytes writes. -/
def ofBytes (text : Bytes) : Except ReadError Json :=
  match Reader.document text with
  | .ok value => .ok value
  | .error stop => .error ⟨stop.cause, stop.position text⟩

def ofText (text : String) : Except ReadError Json :=
  ofBytes (Text.bytesOf text)

end Json
end SurfaceFeed
