/-!
The shortest decimal of a number in binary floating point with a significand of 53 bits. A decimal
text is first rounded to the nearest such number; of all decimals that round to it the one with the
fewest digits stands for it, and of those the nearest one.
-/

namespace ClassSplit

/-- The number `digits · 10 ^ exponent`. -/
structure Decimal where
  digits : Nat
  exponent : Int
  deriving DecidableEq

/-- A fraction of natural numbers whose denominator is not zero. -/
structure Fraction where
  num : Nat
  den : Nat
  deriving DecidableEq

namespace Fraction

/-- The fraction times `base ^ e`. -/
def scale (x : Fraction) (base : Nat) (e : Int) : Fraction :=
  if 0 ≤ e then ⟨x.num * Nat.pow base e.toNat, x.den⟩ else ⟨x.num, x.den * Nat.pow base (-e).toNat⟩

def le (x y : Fraction) : Bool := x.num * y.den ≤ y.num * x.den

def lt (x y : Fraction) : Bool := x.num * y.den < y.num * x.den

def floor (x : Fraction) : Nat := x.num / x.den

/-- The nearest natural number; a half goes to the even neighbour. -/
def round (x : Fraction) : Nat :=
  let below := x.floor
  let rest := 2 * (x.num % x.den)
  if rest < x.den ∨ rest = x.den ∧ below % 2 = 0 then below else below + 1

/-- The least `p` with `x < 10 ^ p`. -/
def decimalPlaces (x : Fraction) : Int :=
  if x.den ≤ x.num then (Nat.toDigits 10 x.floor).length
  else
    let p : Int := 1 - (Nat.toDigits 10 (x.den / x.num)).length
    if x.lt ((⟨1, 1⟩ : Fraction).scale 10 p) then p else p + 1

end Fraction

/-- The positive number `significand · 2 ^ exponent`. -/
structure Binary where
  significand : Nat
  exponent : Int
  deriving DecidableEq

namespace Binary

/-- The least significand of full length. -/
def fullLength : Nat := 4503599627370496

/-- The least exponent. -/
def leastExponent : Int := -1074

/-- The greatest exponent. -/
def greatestExponent : Int := 971

/-- The nearest number, unless it is too large. -/
def nearest? (x : Fraction) : Option Binary :=
  let estimate : Int := (Nat.log2 x.num : Int) - Nat.log2 x.den - 52
  let start := max estimate leastExponent
  let fits (q : Int) : Bool := (x.scale 2 (-q)).floor < 2 * fullLength
  let exact (q : Int) : Bool := fullLength ≤ (x.scale 2 (-q)).floor || q ≤ leastExponent
  let q := if !fits start then start + 1 else if !exact start then start - 1 else start
  let m := (x.scale 2 (-q)).round
  let (m, q) := if m = 2 * fullLength then (fullLength, q + 1) else (m, q)
  if greatestExponent < q then none else some ⟨m, q⟩

def value (b : Binary) : Fraction := (⟨b.significand, 1⟩ : Fraction).scale 2 b.exponent

/-- The ends of the interval of fractions that round to the number, in quarters of its last place.
Below a power of two the next number is only half as far away. -/
def interval (b : Binary) : Fraction × Fraction :=
  let gap := if b.significand = fullLength ∧ leastExponent < b.exponent then 1 else 2
  ((⟨4 * b.significand - gap, 4⟩ : Fraction).scale 2 b.exponent,
    (⟨4 * b.significand + 2, 4⟩ : Fraction).scale 2 b.exponent)

/-- Whether a fraction rounds to the number. -/
def readsBack (b : Binary) (x : Fraction) : Bool :=
  let (low, high) := b.interval
  if b.significand % 2 = 0 then low.le x && x.le high else low.lt x && x.lt high

/-- The neighbours of the number among the multiples of `10 ^ t` that round to it, the nearer one
first. -/
def neighbours (b : Binary) (t : Int) : List Decimal :=
  let scaled := b.value.scale 10 (-t)
  let below := scaled.floor
  let near := if 2 * (scaled.num % scaled.den) < scaled.den then [below, below + 1]
    else [below + 1, below]
  (near.map (⟨·, t⟩)).filter fun d => b.readsBack ((⟨d.digits, 1⟩ : Fraction).scale 10 d.exponent)

/-- The first decimal that is found with at most `places` digits more than `count`. -/
def search (b : Binary) (top : Int) (count : Nat) : Nat → Decimal
  | 0 => ⟨(b.value.scale 10 (count - top)).round, top - count⟩
  | places + 1 =>
    match b.neighbours (top - count) with
    | d :: _ => d
    | [] => search b top (count + 1) places

/-- The shortest decimal of the number. Seventeen digits are always enough. -/
def shortest (b : Binary) : Decimal := search b b.value.decimalPlaces 1 16

end Binary

namespace Decimal

def toFraction (d : Decimal) : Fraction := (⟨d.digits, 1⟩ : Fraction).scale 10 d.exponent

/-- The decimal without zeros at its end. -/
def trimZeros (d : Decimal) : Decimal :=
  let zeros := ((Nat.toDigits 10 d.digits).reverse.takeWhile (· == '0')).length
  if d.digits = 0 then ⟨0, 0⟩ else ⟨d.digits / Nat.pow 10 zeros, d.exponent + zeros⟩

/-- Written with a point and without an exponent; a whole number gets `.0`. -/
def positional (d : Decimal) : String :=
  let digits := Nat.toDigits 10 d.digits
  if 0 ≤ d.exponent then
    String.ofList (digits ++ List.replicate d.exponent.toNat '0' ++ ['.', '0'])
  else
    let places := (-d.exponent).toNat
    let padded := List.replicate (places + 1 - digits.length) '0' ++ digits
    String.ofList
      (padded.take (padded.length - places) ++ '.' :: padded.drop (padded.length - places))

/-- Written with a point while this takes at most sixteen digits before it or five zeros behind it,
otherwise with an exponent. -/
def compact (d : Decimal) : String :=
  let digits := Nat.toDigits 10 d.digits
  let point := digits.length + d.exponent
  if -5 < point ∧ point ≤ 16 then d.positional
  else
    let fraction := if digits.length = 1 then [] else '.' :: digits.drop 1
    String.ofList (digits.take 1 ++ fraction) ++ "e" ++ toString (point - 1)

/-- What a decimal text stands for after it is rounded to a binary number, unless that is too
large. -/
def rounded? (d : Decimal) : Option Decimal :=
  if d.digits = 0 then some ⟨0, 0⟩
  else
    (Binary.nearest? d.toFraction).map fun b =>
      if b.significand = 0 then ⟨0, 0⟩ else b.shortest.trimZeros

end Decimal

end ClassSplit
