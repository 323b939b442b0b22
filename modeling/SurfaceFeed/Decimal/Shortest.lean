/-!
# Shortest decimals

## The decimal that stands for a binary number

A positive binary number `m * 2 ^ q` stands for an interval of reals: those
nearer to it than to its neighbours.  Its shortest decimal is the point of the
coarsest grid of multiples of a power of ten that meets the interval; of two
such points the nearer one, and of two equally near ones the one that the rule
for ties names.

All arithmetic is exact, on natural numbers.
-/

namespace SurfaceFeed

/-- The number `digits * 10 ^ exponent`. -/
structure Decimal where
  digits : Nat
  exponent : Int
  deriving DecidableEq, Repr

namespace Decimal

/-- Which of two equally near decimals is taken. -/
inductive Tie where
  | even
  | up
  deriving DecidableEq, Repr

/-- The positive number `mantissa * 2 ^ exponent`. -/
structure Binary where
  mantissa : Nat
  exponent : Int
  deriving DecidableEq, Repr

/-! ## The interval of a binary number

Bounds are counted in quarters of the last place.  The gap below a power of two
is half as wide as the gap above it, save for the least exponent.  The ends
belong to the interval when the mantissa is even.
-/

namespace Binary

def leastExponent : Int := -1074

def leastFullMantissa : Nat := 1 <<< 52

def lowQuarters (x : Binary) : Nat :=
  if x.mantissa = leastFullMantissa ∧ leastExponent < x.exponent then
    4 * x.mantissa - 1
  else
    4 * x.mantissa - 2

def highQuarters (x : Binary) : Nat :=
  4 * x.mantissa + 2

/-- A quarter of the last place is `num / den` steps of the grid `10 ^ k`. -/
def quarterStep (x : Binary) (k : Int) : Nat × Nat :=
  let q := x.exponent - 2
  (Nat.pow 2 q.toNat * Nat.pow 10 (-k).toNat, Nat.pow 2 (-q).toNat * Nat.pow 10 k.toNat)

/-- Whether the grid point `digits * 10 ^ k` lies in the interval. -/
def covers (x : Binary) (k : Int) (digits : Nat) : Bool :=
  let (num, den) := x.quarterStep k
  if x.mantissa % 2 = 0 then
    decide (x.lowQuarters * num ≤ digits * den ∧ digits * den ≤ x.highQuarters * num)
  else
    decide (x.lowQuarters * num < digits * den ∧ digits * den < x.highQuarters * num)

/-- The point of the grid `10 ^ k` that is nearest to `x` among those in its interval. -/
def nearestOn? (tie : Tie) (x : Binary) (k : Int) : Option Nat :=
  let (num, den) := x.quarterStep k
  let exact := 4 * x.mantissa * num
  let below := exact / den
  let above := below + 1
  match x.covers k below, x.covers k above with
  | false, false => none
  | true, false => some below
  | false, true => some above
  | true, true =>
      let fromBelow := exact - below * den
      let fromAbove := above * den - exact
      if fromBelow < fromAbove then some below
      else if fromAbove < fromBelow then some above
      else
        match tie with
        | .up => some above
        | .even => some (if below % 2 = 0 then below else above)

/-- The coarsest grid below `10 ^ (k + 1)` that meets the interval, and its point. -/
def coarsest (tie : Tie) (x : Binary) : Nat -> Int -> Decimal
  | 0, k => ⟨0, k⟩
  | fuel + 1, k =>
      match x.nearestOn? tie k with
      | some digits => ⟨digits, k⟩
      | none => coarsest tie x fuel (k - 1)

end Binary

/--
A power of ten beyond the interval, which is bounded by `2 ^ bits`: the power is
at least that because `2 ^ 3 < 10` and `10 ^ 3 < 2 ^ 10`.
-/
def Binary.beyond (x : Binary) : Int :=
  let bits : Int := Nat.log2 x.mantissa + 2 + x.exponent
  if 0 ≤ bits then bits / 3 + 1 else bits * 3 / 10 + 1

/-- Seventeen digits always suffice, and `beyond` is less than fifty powers too large. -/
def gridCount : Nat := 80

/-- The shortest decimal of a positive binary number. -/
def shortest (tie : Tie) (x : Binary) : Decimal :=
  x.coarsest tie gridCount x.beyond

/-! ## Binary numbers from floats -/

inductive Kind where
  | zero
  | finite (magnitude : Binary)
  | infinite
  | notANumber
  deriving DecidableEq, Repr

def isNegative (f : Float) : Bool :=
  f.toBits >>> 63 == 1

def kind (f : Float) : Kind :=
  let bits := f.toBits.toNat
  let exponent : Nat := bits / Binary.leastFullMantissa % 2048
  let fraction : Nat := bits % Binary.leastFullMantissa
  if exponent = 2047 then
    if fraction = 0 then .infinite else .notANumber
  else if exponent = 0 then
    if fraction = 0 then .zero else .finite ⟨fraction, Binary.leastExponent⟩
  else
    .finite ⟨fraction + Binary.leastFullMantissa, (exponent : Int) - 1075⟩

def isFinite (f : Float) : Bool :=
  match kind f with
  | .zero | .finite _ => true
  | .infinite | .notANumber => false

end Decimal
end SurfaceFeed
