import SurfaceFeed.Decimal.Shortest

/-!
# Writing floats

## Two layouts

A layout says how the shortest decimal of a float is written down: which
exponents are written out in full, whether a whole number shows a fraction, and
how zero, the infinities and the undefined number read.
-/

namespace SurfaceFeed
namespace Decimal

/--
With the number as `d.ddd * 10 ^ e`, an `e` for which `inFull` holds is written
without an exponent.
-/
structure Layout where
  tie : Tie
  inFull : Int -> Bool
  wholeMark : String
  zero : Bool -> String
  infinite : Bool -> String
  notANumber : String

namespace Layout

def signed (negative : Bool) (text : String) : String :=
  if negative then "-" ++ text else text

def zeros (n : Nat) : String :=
  String.ofList (List.replicate n '0')

/-- All places of the number, and `wholeMark` after a whole one. -/
def written (layout : Layout) (x : Decimal) : String :=
  let digits := Nat.toDigits 10 x.digits
  if 0 ≤ x.exponent then
    String.ofList digits ++ zeros x.exponent.toNat ++ layout.wholeMark
  else
    let places := (-x.exponent).toNat
    if places < digits.length then
      let whole := digits.length - places
      String.ofList (digits.take whole ++ '.' :: digits.drop whole)
    else
      "0." ++ zeros (places - digits.length) ++ String.ofList digits

/-- One digit before the point, the others after it, and the exponent with its sign. -/
def scientific (x : Decimal) (leading : Int) : String :=
  let mantissa :=
    match Nat.toDigits 10 x.digits with
    | [] => ""
    | [d] => String.ofList [d]
    | d :: rest => String.ofList (d :: '.' :: rest)
  let sign := if leading < 0 then "-" else "+"
  mantissa ++ "e" ++ sign ++ String.ofList (Nat.toDigits 10 leading.natAbs)

/-- The exponent of the leading digit. -/
def leadingExponent (x : Decimal) : Int :=
  x.exponent + (Nat.toDigits 10 x.digits).length - 1

def magnitude (layout : Layout) (x : Decimal) : String :=
  let leading := leadingExponent x
  if layout.inFull leading then layout.written x else scientific x leading

def write (layout : Layout) (f : Float) : String :=
  let negative := isNegative f
  match kind f with
  | .zero => layout.zero negative
  | .finite x => signed negative (layout.magnitude (shortest layout.tie x))
  | .infinite => layout.infinite negative
  | .notANumber => layout.notANumber

end Layout

/-- In a document, a float from `1e-5` up to `1e16` is written out in full, with a fraction. -/
def documentLayout : Layout where
  tie := .even
  inFull e := -5 ≤ e && e ≤ 15
  wholeMark := ".0"
  zero negative := Layout.signed negative "0.0"
  infinite _ := "null"
  notANumber := "null"

/-- On display every place is written out; a whole number has no fraction, zero no sign. -/
def displayLayout : Layout where
  tie := .up
  inFull _ := true
  wholeMark := ""
  zero _ := "0"
  infinite negative := Layout.signed negative "inf"
  notANumber := "NaN"

end Decimal
end SurfaceFeed
