/-!
# Exact values of floats

A float is a sign, a natural mantissa `m` and a power of two, or an infinity, or not a number.  `Float.exact`
reads the sixty-four bits; `Binary.nearest` goes back: it rounds a quotient of naturals to the nearest float,
a tie to the even mantissa.
-/

namespace ServerTrial

/-- What the bits of a float stand for; a finite value is `± mantissa * 2 ^ exponent`. -/
inductive Binary where
  | finite (negative : Bool) (mantissa : Nat) (exponent : Int)
  | infinite (negative : Bool)
  | nan
  deriving DecidableEq, Repr

namespace Binary

/-- Least exponent, that of zero and the subnormal values. -/
def minExponent : Int := -1074

/-- Mantissas of normal values have this many bits below the leading one. -/
def fractionBits : Nat := 52

/-- Reads a bit pattern. -/
def ofBits (bits : Nat) : Binary :=
  let negative : Bool := bits / Nat.pow 2 63 % 2 == 1
  let biased : Nat := bits / Nat.pow 2 52 % Nat.pow 2 11
  let fraction : Nat := bits % Nat.pow 2 52
  if biased = 2047 then (if fraction = 0 then .infinite negative else .nan)
  else if biased = 0 then .finite negative fraction minExponent
  else .finite negative (Nat.pow 2 52 + fraction) ((biased : Int) - 1075)

/-- Rounds `num / den` to the nearest natural, a tie to the even one. -/
def roundQuotient (num den : Nat) : Nat :=
  let q := num / den
  let r := num % den
  if 2 * r > den ∨ (2 * r = den ∧ q % 2 = 1) then q + 1 else q

/-- The bit pattern, sign aside, of the float nearest to `num / den`. -/
def nearestBits (num den : Nat) : Nat :=
  if num = 0 then 0
  else
    let guess : Int := (num.log2 : Int) - den.log2 - fractionBits
    let below : Bool :=
      let s : Int := guess + fractionBits
      num * Nat.pow 2 (-s).toNat < den * Nat.pow 2 s.toNat
    let e := max minExponent (if below then guess - 1 else guess)
    let q := roundQuotient (num * Nat.pow 2 (-e).toNat) (den * Nat.pow 2 e.toNat)
    let (q, e) := if q = Nat.pow 2 53 then (Nat.pow 2 52, e + 1) else (q, e)
    if q < Nat.pow 2 52 then q
    else
      let biased := (e + 1075).toNat
      if biased ≥ 2047 then 2047 * Nat.pow 2 52 else biased * Nat.pow 2 52 + (q - Nat.pow 2 52)

/-- The float nearest to `± num / den`. -/
def nearest (negative : Bool) (num den : Nat) : Float :=
  Float.ofBits (UInt64.ofNat ((if negative then Nat.pow 2 63 else 0) + nearestBits num den))

/-- The float nearest to `± digits * 10 ^ exponent`.  Powers far outside the range are settled without
being computed. -/
def ofDecimal (negative : Bool) (digits : Nat) (exponent : Int) : Float :=
  let places : Int := (digits.log2 : Int) * 30103 / 100000 + exponent
  if digits = 0 ∨ places < -400 then nearest negative 0 1
  else if places > 400 then Float.ofBits (UInt64.ofNat ((if negative then Nat.pow 2 63 else 0) + 2047 * Nat.pow 2 52))
  else nearest negative (digits * Nat.pow 10 exponent.toNat) (Nat.pow 10 (-exponent).toNat)

end Binary

namespace Real64

/-- The exact value of a float. -/
def exact (x : Float) : Binary := Binary.ofBits x.toBits.toNat

def nan : Float := Float.ofBits 0x7FF8000000000000

def infinity : Float := Float.ofBits 0x7FF0000000000000

/-- The float nearest to an integer, infinite if the integer is out of range. -/
def ofInt (n : Int) : Float := Binary.nearest (n < 0) n.natAbs 1

/-- The integer a float equals, if it equals one. -/
def toInt? (x : Float) : Option Int :=
  match exact x with
  | .finite negative m e =>
    let den := Nat.pow 2 (-e).toNat
    let num := m * Nat.pow 2 e.toNat
    if num % den = 0 then some (if negative then -(num / den : Nat) else (num / den : Nat)) else none
  | _ => none

/-- The integer part of a float, rounded toward zero. -/
def truncate? (x : Float) : Option Int :=
  match exact x with
  | .finite negative m e =>
    let n : Nat := m * Nat.pow 2 e.toNat / Nat.pow 2 (-e).toNat
    some (if negative then -(n : Int) else n)
  | _ => none

/-- Does the float equal the integer exactly? -/
def equalsInt (x : Float) (n : Int) : Bool := toInt? x == some n

end Real64

end ServerTrial
