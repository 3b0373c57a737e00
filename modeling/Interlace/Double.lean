import Interlace.Text.Basic

/-!
# Doubles

Binary floating-point numbers of double precision as exact fractions. `Double.ofRatio?` gives
the nearest one to a fraction, and `Double.render` the shortest decimal that is nearest to no
other.
-/

namespace Interlace

/-- A finite double from zero up: `mantissa · 2 ^ exponent`. Only doubles with the least exponent
have a mantissa below `Double.leadingBit`. -/
structure Double where
  mantissa : Nat
  exponent : Int
  deriving DecidableEq, Repr

namespace Double

/-- The bit that leads a mantissa of 53 bits. -/
def leadingBit : Nat := 0x10000000000000

/-- The least exponent. -/
def leastExponent : Int := -1074

/-- The greatest exponent. -/
def greatestExponent : Int := 971

/-- The whole number nearest to a fraction; of two, the even one. -/
def roundDiv (num den : Nat) : Nat :=
  let quotient := num / den
  let twice := 2 * (num % den)
  if twice < den then quotient
  else if den < twice then quotient + 1
  else quotient + quotient % 2

/-- A fraction divided by a power of two. -/
def shifted (num den : Nat) (exponent : Int) : Nat × Nat :=
  if 0 ≤ exponent then (num, den <<< exponent.toNat) else (num <<< (-exponent).toNat, den)

/-- The exponent of the double nearest to a fraction, before rounding. -/
def exponentOf (num den : Nat) : Int :=
  let estimate := max ((Nat.log2 num : Int) - Nat.log2 den - 53) leastExponent
  let (n, d) := shifted num den estimate
  if 2 * leadingBit ≤ n / d then estimate + 1 else estimate

/-- The double nearest to a fraction, the even one of two; nothing if all are too small. -/
def ofRatio? (num den : Nat) : Option Double :=
  if num = 0 then some ⟨0, leastExponent⟩
  else
    let exponent := exponentOf num den
    let (n, d) := shifted num den exponent
    let mantissa := roundDiv n d
    let rounded : Double :=
      if mantissa = 2 * leadingBit then ⟨leadingBit, exponent + 1⟩ else ⟨mantissa, exponent⟩
    if greatestExponent < rounded.exponent then none else some rounded

/-- The numerator of the value. -/
def num (x : Double) : Nat :=
  (shifted x.mantissa 1 (-x.exponent)).1

/-- The denominator of the value. -/
def den (x : Double) : Nat :=
  (shifted x.mantissa 1 (-x.exponent)).2

/-- The product, rounded. -/
def mul? (x y : Double) : Option Double :=
  ofRatio? (x.num * y.num) (x.den * y.den)

/-- The quotient, rounded. -/
def div? (x y : Double) : Option Double :=
  ofRatio? (x.num * y.den) (x.den * y.num)

/-- The double nearest to a power of ten. -/
def powerOfTen? (n : Nat) : Option Double :=
  ofRatio? (Nat.pow 10 n) 1

/-! ## Shortest decimals -/

/-- A double with the ends of the interval of numbers that it is nearest to, as numerators over
`den`. -/
structure Neighbourhood where
  low : Nat
  value : Nat
  high : Nat
  den : Nat
  /-- The ends belong to the interval. -/
  closed : Bool

/-- The neighbourhood of a double. The gap below is half as wide where the exponent changes. -/
def neighbourhood (x : Double) : Neighbourhood :=
  let unit := (shifted 1 1 (-x.exponent)).1
  let below := if x.mantissa = leadingBit && leastExponent < x.exponent then unit else 2 * unit
  ⟨4 * x.num - below, 4 * x.num, 4 * x.num + 2 * unit, 4 * x.den, x.mantissa % 2 = 0⟩

namespace Neighbourhood

/-- The neighbourhood in units of a power of ten. -/
def inUnits (n : Neighbourhood) (place : Int) : Neighbourhood :=
  if 0 ≤ place then { n with den := n.den * Nat.pow 10 place.toNat }
  else
    let factor := Nat.pow 10 (-place).toNat
    { n with low := n.low * factor, value := n.value * factor, high := n.high * factor }

/-- A whole number of units lies in the interval. -/
def holds (n : Neighbourhood) (units : Nat) : Bool :=
  let point := units * n.den
  if n.closed then n.low ≤ point && point ≤ n.high else n.low < point && point < n.high

/-- The whole number of units in the interval that is nearest to the double. -/
def nearest? (n : Neighbourhood) : Option Nat :=
  let floor := n.value / n.den
  let order :=
    if 2 * (n.value % n.den) ≤ n.den then [floor, floor + 1] else [floor + 1, floor]
  order.find? n.holds

/-- The digits and the last place of the decimal with the fewest digits in the interval, from
a place on downwards; `steps` bounds the places tried. -/
def shortest (n : Neighbourhood) : (steps : Nat) → (place : Int) → Nat × Int
  | 0, place => (0, place)
  | steps + 1, place =>
    match (n.inUnits place).nearest? with
    | some units => (units, place)
    | none => shortest n steps (place - 1)

end Neighbourhood

/-- Decimal digits without zeros at the start. -/
def dropZeros (digits : Text) : Text :=
  digits.dropWhile (· = 0x30)

/-- Decimal digits whose last stands at a place, with digits on both sides of the point. -/
def positional (digits : Text) (place : Int) : Text :=
  let point : Int := digits.length + place
  let (left, right) : Text × Text :=
    if point ≤ 0 then ([], List.replicate (-point).toNat 0x30 ++ digits)
    else if 0 ≤ place then (digits ++ List.replicate place.toNat 0x30, [])
    else (digits.take point.toNat, digits.drop point.toNat)
  let left := dropZeros left
  let right := (dropZeros right.reverse).reverse
  (if left = [] then [0x30] else left) ++ "." ++ (if right = [] then [0x30] else right)

/-- The shortest decimal that is nearest to no other double, in positional form. The greatest
doubles have 309 digits before the point, the least have their first digit at the 324th place
behind it, and 17 digits tell any double apart. -/
def render (x : Double) : Text :=
  if x.mantissa = 0 then "0.0"
  else
    let (digits, place) := x.neighbourhood.shortest 660 308
    positional (Text.ofNat digits) place

end Double

end Interlace
