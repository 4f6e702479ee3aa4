import ServerTrial.Number.Binary

/-!
# Shortest decimals

The decimal with the fewest digits among those that round to a given float; of two such the nearer one.
Candidates for `n` digits are the two neighbours of the value on the grid `10 ^ (p - n)`, so seventeen steps
find one.
-/

namespace ServerTrial.Shortest

/-- A positive decimal `digits * 10 ^ exponent`. -/
structure Decimal where
  digits : Nat
  exponent : Int
  deriving DecidableEq, Repr

/-- The reals that round to a float, as numerators over one denominator; `value` lies inside. -/
structure Interval where
  low : Nat
  value : Nat
  high : Nat
  den : Nat
  closed : Bool

/-- The interval of `m * 2 ^ e`; at a power of two the gap below is half the gap above. -/
def interval (m : Nat) (e : Int) : Interval :=
  let scale := Nat.pow 2 e.toNat
  let den := 4 * Nat.pow 2 (-e).toNat
  let gap := if m = Nat.pow 2 52 ∧ e > Binary.minExponent then 1 else 2
  ⟨(4 * m - gap) * scale, 4 * m * scale, (4 * m + 2) * scale, den, m % 2 = 0⟩

def Interval.holds (i : Interval) (num den : Nat) : Bool :=
  if i.closed then i.low * den ≤ num * i.den && num * i.den ≤ i.high * den
  else i.low * den < num * i.den && num * i.den < i.high * den

/-- Number of decimal digits of a natural; zero has one. -/
def width (n : Nat) : Nat := (Nat.toDigits 10 n).length

/-- The least `p` with `num / den < 10 ^ p`, for a positive quotient. -/
def leastPower (num den : Nat) : Int :=
  if num ≥ den then width (num / den)
  else
    -- one more than the zeros behind the point
    let k := width ((den - 1) / num)
    if num * Nat.pow 10 (k - 1) ≥ den then 1 - ((k - 1 : Nat) : Int) else 1 - (k : Int)

/-- The better of the two neighbours on the grid `10 ^ g`, if one rounds to the float. -/
def candidate (i : Interval) (g : Int) : Option Nat :=
  let up := Nat.pow 10 (-g).toNat
  let down := Nat.pow 10 g.toNat
  let num := i.value * up
  let den := i.den * down
  let d := num / den
  let r := num % den
  let lower := i.holds (d * down) up
  let upper := i.holds ((d + 1) * down) up
  match lower, upper with
  | false, false => none
  | true, false => some d
  | false, true => some (d + 1)
  | true, true => some (if 2 * r > den ∨ (2 * r = den ∧ d % 2 = 1) then d + 1 else d)

/-- Tries `n`, `n + 1`, … digits, at most `fuel` of them. -/
def search (i : Interval) (p : Int) : Nat → Nat → Decimal
  | 0, n => ⟨i.value * Nat.pow 10 ((n : Int) - p).toNat / (i.den * Nat.pow 10 (p - n).toNat), p - n⟩
  | fuel + 1, n =>
    match candidate i (p - n) with
    | some d => ⟨d, p - n⟩
    | none => search i p fuel (n + 1)

/-- Drops zeros at the end of the digits, at most `fuel` of them. -/
def strip : Nat → Decimal → Decimal
  | 0, d => d
  | fuel + 1, d => if d.digits % 10 = 0 ∧ d.digits ≠ 0 then strip fuel ⟨d.digits / 10, d.exponent + 1⟩ else d

/-- The shortest decimal of the positive float `m * 2 ^ e`. -/
def ofMantissa (m : Nat) (e : Int) : Decimal :=
  let i := interval m e
  strip 400 (search i (leastPower i.value i.den) 17 1)

end ServerTrial.Shortest
