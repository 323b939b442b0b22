import SurfaceFeed.Json.Basic
import SurfaceFeed.Json.Fault
import SurfaceFeed.Text.Position

/-!
# Numbers in a JSON text

## How a number is read

The digits of a number make up a significand as long as it stays below `2 ^ 64`;
whole digits after that only raise the exponent, and fraction digits after that
are dropped.  A float is the significand times a power of ten, rounded once for
the significand and once for each multiplication or division.  That is not
always the float nearest to the number as written.

A whole number without fraction and exponent stays an integer if it fits in 64
bits, with a sign if it is negative; minus zero is a float.
-/

namespace SurfaceFeed
namespace Json
namespace Number

def isDigit (b : UInt8) : Bool :=
  0x30 ≤ b && b ≤ 0x39

def digitValue (b : UInt8) : Nat :=
  b.toNat - 0x30

def significandBound : Nat := UInt64.size

def largestExponent : Nat := 0x7fffffff

/-- Appends digits to a significand while it stays in bounds; also the digits left over. -/
def absorb : Nat -> Bytes -> Nat × Bytes
  | n, [] => (n, [])
  | n, b :: rest =>
      let next := n * 10 + digitValue b
      if next < significandBound then absorb next rest else (n, b :: rest)

/-! ## From a significand and an exponent to a float -/

def powerOfTen (n : Nat) : Float :=
  Float.ofScientific 1 false n

def largestPower : Nat := 308

/-- Divides by `10 ^ n`, by the largest power as often as needed first. -/
def divide (f : Float) (n : Nat) : Float :=
  if n ≤ largestPower then f / powerOfTen n
  else if f == 0 then f
  else divide (f / powerOfTen largestPower) (n - largestPower)
termination_by n
decreasing_by simp [largestPower] at *; omega

/-- The float for `significand * 10 ^ exponent`, unless it is too large for one. -/
def scale? (significand : Nat) (exponent : Int) : Option Float :=
  let f := Float.ofNat significand
  if exponent < 0 then some (divide f (-exponent).toNat)
  else if exponent ≤ largestPower then
    let product := f * powerOfTen exponent.toNat
    if Decimal.isFinite product then some product else none
  else if f == 0 then some f
  else none

def float (negative : Bool) (significand : Nat) (exponent : Int) (rest : Bytes) :
    Except (Stop Fault) (Json × Bytes) :=
  match scale? significand exponent with
  | some f => .ok (.float (if negative then -f else f), rest)
  | none => .error ⟨.numberOutOfRange, rest⟩

/-! ## The parts of a number -/

/--
The rest of an exponent that begins with `n`.  The exponent is missing if it is
too large, and the text then goes on after the digit that made it so.
-/
def exponentDigits : Nat -> Bytes -> Option Nat × Bytes
  | n, [] => (some n, [])
  | n, b :: rest =>
      if isDigit b then
        let next := n * 10 + digitValue b
        if next ≤ largestExponent then exponentDigits next rest else (none, rest)
      else (some n, b :: rest)

/-- The sign of an exponent: whether it is negative, and the text after the sign. -/
def exponentSign : Bytes -> Bool × Bytes
  | [] => (false, [])
  | b :: rest =>
      if b == 0x2b then (false, rest)
      else if b == 0x2d then (true, rest)
      else (false, b :: rest)

/-- What follows the letter of an exponent. -/
def exponent (negative : Bool) (significand : Nat) (offset : Int) (s : Bytes) :
    Except (Stop Fault) (Json × Bytes) :=
  let (down, s) := exponentSign s
  match s with
  | [] => .error ⟨.endInValue, []⟩
  | b :: rest =>
      if isDigit b then
        match exponentDigits (digitValue b) rest with
        | (some n, rest) =>
            float negative significand (if down then offset - n else offset + n) rest
        | (none, rest) =>
            if significand ≠ 0 && !down then .error ⟨.numberOutOfRange, rest⟩
            else float negative 0 0 (rest.dropWhile isDigit)
      else .error ⟨.invalidNumber, rest⟩

def isExponentLetter (b : UInt8) : Bool :=
  b == 0x65 || b == 0x45

/-- An exponent if there is one, and else a float that ends here. -/
def afterFraction (negative : Bool) (significand : Nat) (offset : Int) (s : Bytes) :
    Except (Stop Fault) (Json × Bytes) :=
  match s with
  | [] => float negative significand offset []
  | b :: rest =>
      if isExponentLetter b then exponent negative significand offset rest
      else float negative significand offset (b :: rest)

/-- What follows the point of a number that has `extra` whole digits beyond its significand. -/
def fraction (negative : Bool) (significand extra : Nat) (s : Bytes) :
    Except (Stop Fault) (Json × Bytes) :=
  let digits := s.takeWhile isDigit
  let rest := s.dropWhile isDigit
  match digits, rest with
  | [], [] => .error ⟨.endInValue, []⟩
  | [], rest => .error (.atNext .invalidNumber rest)
  | digits, rest =>
      let (significand, dropped) := absorb significand digits
      let places : Int := (digits.length : Int) - dropped.length
      afterFraction negative significand (extra - places) rest

/-- A number without fraction and exponent. -/
def whole (negative : Bool) (significand extra : Nat) (rest : Bytes) :
    Except (Stop Fault) (Json × Bytes) :=
  if extra = 0 && !negative then .ok (.int significand, rest)
  else if extra = 0 && 0 < significand && significand ≤ significandBound / 2 then
    .ok (.int (-significand), rest)
  else float negative significand extra rest

/-- What follows the whole digits of a number. -/
def afterWhole (negative : Bool) (significand extra : Nat) (s : Bytes) :
    Except (Stop Fault) (Json × Bytes) :=
  match s with
  | [] => whole negative significand extra []
  | b :: rest =>
      if b == 0x2e then fraction negative significand extra rest
      else if isExponentLetter b then exponent negative significand extra rest
      else whole negative significand extra (b :: rest)

/-- A number after its sign. -/
def read (negative : Bool) (s : Bytes) : Except (Stop Fault) (Json × Bytes) :=
  match s with
  | [] => .error ⟨.endInValue, []⟩
  | b :: rest =>
      if b == 0x30 then
        if (rest.takeWhile isDigit).isEmpty then afterWhole negative 0 0 rest
        else .error (.atNext .invalidNumber rest)
      else if isDigit b then
        let (significand, extra) := absorb 0 (b :: rest.takeWhile isDigit)
        afterWhole negative significand extra.length (rest.dropWhile isDigit)
      else .error ⟨.invalidNumber, rest⟩

end Number
end Json
end SurfaceFeed
