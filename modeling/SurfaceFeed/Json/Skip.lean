import SurfaceFeed.Json.Reader

/-!
# Passing over a JSON value

A value that nothing asks for is passed over without being read.  Its brackets
must match, and its words, numbers and strings must be well formed, but numbers
may have any size, escapes any code, and lists and objects any depth.
-/

namespace SurfaceFeed
namespace Json
namespace Skip

/-! ## Numbers -/

def digits (s : Bytes) : Bytes :=
  s.dropWhile Number.isDigit

/-- What follows the letter of an exponent. -/
def exponent (s : Bytes) : Except (Stop Fault) Bytes :=
  match (Number.exponentSign s).2 with
  | [] => .error ⟨.invalidNumber, []⟩
  | b :: s => if Number.isDigit b then .ok (digits s) else .error ⟨.invalidNumber, s⟩

def optionalExponent (s : Bytes) : Except (Stop Fault) Bytes :=
  match s with
  | [] => .ok []
  | b :: rest => if Number.isExponentLetter b then exponent rest else .ok (b :: rest)

/-- What follows the point of a number. -/
def fraction (s : Bytes) : Except (Stop Fault) Bytes :=
  if (s.takeWhile Number.isDigit).isEmpty then .error (.atNext .invalidNumber s)
  else optionalExponent (digits s)

def afterWhole (s : Bytes) : Except (Stop Fault) Bytes :=
  match s with
  | [] => .ok []
  | b :: rest => if b == 0x2e then fraction rest else optionalExponent (b :: rest)

/-- A number after its sign. -/
def number (s : Bytes) : Except (Stop Fault) Bytes :=
  match s with
  | [] => .error ⟨.invalidNumber, []⟩
  | b :: rest =>
      if b == 0x30 then
        if (rest.takeWhile Number.isDigit).isEmpty then afterWhole rest
        else .error (.atNext .invalidNumber rest)
      else if Number.isDigit b then afterWhole (digits rest)
      else .error ⟨.invalidNumber, rest⟩

/-! ## Strings -/

/-- What follows a backslash in a string. -/
def escape : Bytes -> Except (Stop Fault) Bytes
  | [] => .error ⟨.endInString, []⟩
  | b :: s =>
      if b == 0x75 then (Reader.hexEscape s).map Prod.snd
      else if (Reader.shortEscape? b).isSome then .ok s
      else .error ⟨.invalidEscape, s⟩

/-- A string after its opening quote.  A control character in it is not taken. -/
def string : Nat -> Bytes -> Except (Stop Fault) Bytes
  | 0, _ => .error ⟨.endInString, []⟩
  | _ + 1, [] => .error ⟨.endInString, []⟩
  | fuel + 1, b :: s =>
      if b == 0x22 then .ok s
      else if b == 0x5c then do
        let s ← escape s
        string fuel s
      else if b < 0x20 then .error ⟨.controlCharacter, b :: s⟩
      else string fuel s

/-! ## Values -/

inductive Bracket where
  | list
  | object
  deriving DecidableEq, Repr

namespace Bracket

def closing : Bracket -> UInt8
  | list => 0x5d
  | object => 0x7d

def endFault : Bracket -> Fault
  | list => .endInList
  | object => .endInObject

def expectedFault : Bracket -> Fault
  | list => .expectedListEnd
  | object => .expectedObjectEnd

end Bracket

/-- What comes next: a value, a field, a first member, or what follows a member. -/
inductive Stage where
  | value
  | field
  | firstMember
  | afterMember
  deriving DecidableEq, Repr

/-- The stage of a member of a bracket. -/
def Bracket.member : Bracket -> Stage
  | list => .value
  | object => .field

/-- A value that holds no others, given its first byte. -/
def scalar (fuel : Nat) (b : UInt8) (s : Bytes) : Except (Stop Fault) Bytes :=
  if b == 0x6e then (Reader.word [0x75, 0x6c, 0x6c] .null s).map Prod.snd
  else if b == 0x74 then (Reader.word [0x72, 0x75, 0x65] .null s).map Prod.snd
  else if b == 0x66 then (Reader.word [0x61, 0x6c, 0x73, 0x65] .null s).map Prod.snd
  else if b == 0x2d then number s
  else if Number.isDigit b then number (b :: s)
  else if b == 0x22 then string fuel s
  else .error ⟨.expectedValue, s⟩

/-- The name of a field and the colon after it. -/
def fieldName (fuel : Nat) (s : Bytes) : Except (Stop Fault) Bytes :=
  match Reader.skipSpace s with
  | [] => .error ⟨.endInObject, []⟩
  | b :: s =>
      if b == 0x22 then do
        let s ← string fuel s
        Reader.colon s
      else .error ⟨.keyNotString, s⟩

/--
Goes on from a stage inside the brackets that are open, the innermost first.
Every two steps take at least one byte.
-/
def run (length : Nat) : Nat -> Stage -> List Bracket -> Bytes -> Except (Stop Fault) Bytes
  | 0, _, _, _ => .error ⟨.endInValue, []⟩
  | fuel + 1, .value, brackets, s =>
      match Reader.skipSpace s with
      | [] => .error ⟨.endInValue, []⟩
      | b :: s =>
          if b == 0x5b then run length fuel .firstMember (.list :: brackets) s
          else if b == 0x7b then run length fuel .firstMember (.object :: brackets) s
          else do
            let s ← scalar length b s
            if brackets.isEmpty then .ok s else run length fuel .afterMember brackets s
  | fuel + 1, .field, brackets, s => do
      let s ← fieldName length s
      run length fuel .value brackets s
  | _ + 1, .firstMember, [], s => .ok s
  | fuel + 1, .firstMember, bracket :: outer, s =>
      match Reader.skipSpace s with
      | [] => .error ⟨bracket.endFault, []⟩
      | b :: s =>
          if b == bracket.closing then
            if outer.isEmpty then .ok s else run length fuel .afterMember outer s
          else run length fuel bracket.member (bracket :: outer) (b :: s)
  | _ + 1, .afterMember, [], s => .ok s
  | fuel + 1, .afterMember, bracket :: outer, s =>
      match Reader.skipSpace s with
      | [] => .error ⟨bracket.endFault, []⟩
      | b :: s =>
          if b == bracket.closing then
            if outer.isEmpty then .ok s else run length fuel .afterMember outer s
          else if b == 0x2c then run length fuel bracket.member (bracket :: outer) s
          else .error ⟨bracket.expectedFault, s⟩

/-- The text after a value. -/
def value (length : Nat) (s : Bytes) : Except (Stop Fault) Bytes :=
  run length (2 * length + 2) .value [] s

end Skip
end Json
end SurfaceFeed
