import ServerTrial.Number.Shortest

/-!
# Number texts

How floats are written: with the fewest digits that read back, or with a fixed number of places.  A style
says where positional notation ends and how the values without digits are spelled.
-/

namespace ServerTrial

/-- The choices of a format that writes shortest decimals.  A value whose first digit stands `p` places before
the point is positional when `leastPoint < p ≤ greatestPoint`. -/
structure FloatStyle where
  leastPoint : Int
  greatestPoint : Int
  nan : String
  infinity : String

namespace FloatStyle

/-- Positional from 1e-4 up to below 1e16, with a point always; exponents have a sign and two digits. -/
def plain : FloatStyle := ⟨-4, 16, "nan", "inf"⟩

/-- As `plain`, with the words JSON readers use. -/
def json : FloatStyle := ⟨-4, 16, "NaN", "Infinity"⟩

end FloatStyle

namespace Real64

def signed (negative : Bool) (text : String) : String := if negative then "-" ++ text else text

def zeros (n : Nat) : String := String.ofList (List.replicate n '0')

/-- An exponent with its sign and at least two digits. -/
def exponentText (e : Int) : String :=
  let digits := toString e.natAbs
  (if e < 0 then "e-" else "e+") ++ (if digits.length < 2 then "0" ++ digits else digits)

/-- Lays out `digits`, whose decimal point stands after `point` of them. -/
def layOut (style : FloatStyle) (digits : String) (point : Int) : String :=
  let n : Int := digits.length
  let cs := digits.toList
  if point ≤ style.leastPoint ∨ point > style.greatestPoint then
    let rest := String.ofList (cs.drop 1)
    String.ofList (cs.take 1) ++ (if rest.isEmpty then "" else "." ++ rest) ++ exponentText (point - 1)
  else if point ≤ 0 then "0." ++ zeros (-point).toNat ++ digits
  else if n ≤ point then digits ++ zeros (point - n).toNat ++ ".0"
  else String.ofList (cs.take point.toNat) ++ "." ++ String.ofList (cs.drop point.toNat)

/-- The text of a float with the fewest digits that read back. -/
def text (style : FloatStyle) (x : Float) : String :=
  match exact x with
  | .nan => style.nan
  | .infinite negative => signed negative style.infinity
  | .finite negative m e =>
    if m = 0 then signed negative "0.0"
    else
      let d := Shortest.ofMantissa m e
      let digits := toString d.digits
      signed negative (layOut style digits (digits.length + d.exponent))

/-- The text of a float with `places` digits behind the point; ties go to the even digit. -/
def fixed (places : Nat) (x : Float) : String :=
  match exact x with
  | .nan => "nan"
  | .infinite negative => signed negative "inf"
  | .finite negative m e =>
    let scaled := Binary.roundQuotient (m * Nat.pow 2 e.toNat * Nat.pow 10 places) (Nat.pow 2 (-e).toNat)
    let whole := toString (scaled / Nat.pow 10 places)
    let part := toString (scaled % Nat.pow 10 places)
    signed negative (if places = 0 then whole else whole ++ "." ++ zeros (places - part.length) ++ part)

end Real64

end ServerTrial
