import ServerTrial.Data.Basic
import ServerTrial.Text.Classes
import ServerTrial.Number.Limit

/-!
# Reading scalars leniently

Numbers and booleans that arrive in another guise: integers as whole floats, booleans or texts, floats as
integers, booleans or texts, booleans as zero, one or one of a few words.
-/

namespace ServerTrial.Scalar

/-- White space by the Unicode property. -/
def isSpace (c : Char) : Bool := Text.isBlank c && !(0x1C ≤ c.toNat && c.toNat ≤ 0x1F)

def trim (cs : List Char) : List Char := ((cs.dropWhile isSpace).reverse.dropWhile isSpace).reverse

/-- ASCII digits with single underscores between them. -/
def digits? : List Char → Option (List Char)
  | [] => none
  | [c] => if Text.isDigit c then some [c] else none
  | c :: '_' :: rest => if Text.isDigit c then (digits? rest).map (c :: ·) else none
  | c :: rest => if Text.isDigit c then (digits? rest).map (c :: ·) else none

/-- Splits a sign off. -/
def sign : List Char → Bool × List Char
  | '+' :: rest => (false, rest)
  | '-' :: rest => (true, rest)
  | cs => (false, cs)

def value (digits : List Char) : Nat := digits.foldl (fun n c => 10 * n + (c.toNat - 48)) 0

/-- Behind zeros, and underscores among them, of which `last` is the last one.  It stays if nothing or a point comes
next. -/
def dropZeros (last : Char) : List Char → Option (List Char)
  | [] => some [last]
  | c :: rest =>
    if c = '0' ∨ c = '_' then dropZeros c rest
    else if c = '.' then some (last :: '.' :: rest)
    else if Text.isDigit c ∨ c = '-' then some (c :: rest)
    else none

/-- Without the zeros in front. -/
def withoutZeros : List Char → Option (List Char)
  | '0' :: rest => dropZeros '0' rest
  | c :: rest => if Text.isDigit c then some (c :: rest) else none
  | [] => none

/-- Without a fraction, if the fraction is all zeros. -/
def dropZeroFraction (cs : List Char) : List Char :=
  let whole := cs.takeWhile (· != '.')
  let part := cs.drop (whole.length + 1)
  if !part.isEmpty && part.all (· == '0') then whole else cs

/-- The digits of a whole number: no zero in front of others, and not too many. -/
def wholeDigits? (cs : List Char) : Option (List Char) :=
  match digits? cs with
  | some ds => if (ds.length > 1 && ds.head? = some '0') || ds.length > digitLimit then none else some ds
  | none => none

/-- The integer that a text spells: blanks around it, a sign, zeros in front, a fraction of zeros.  A minus may also
stand behind the zeros. -/
def wholeOfText (s : String) : Option Int := do
  let (negative, cs) := sign (trim s.toList)
  let (inner, cs) := sign (← withoutZeros cs)
  if negative && inner then none
  let ds ← wholeDigits? (dropZeroFraction cs)
  return if negative || inner then -(value ds : Int) else value ds

/-- The integer that a float is, if it is one below 2 ^ 63 in size. -/
def wholeOfReal (x : Float) : Option Int :=
  match Real64.toInt? x with
  | some n => if n.natAbs < Nat.pow 2 63 then some n else none
  | none => none

/-- An integer, and whether it was given as one. -/
def whole? : Data → Option (Int × Bool)
  | .int n => some (n, true)
  | .bool b => some (if b then 1 else 0, false)
  | .float x => (wholeOfReal x).map (·, false)
  | .str s => (wholeOfText s).map (·, false)
  | _ => none

/-- The parts of a decimal: whole digits, digits behind the point, exponent. -/
structure Parts where
  whole : List Char
  fraction : List Char
  exponent : Int

/-- Splits a decimal without its sign; digits may stand on one side of the point only. -/
def parts? (cs : List Char) : Option Parts :=
  let (whole, rest) := cs.span Text.isDigit
  let (fraction, rest) := match rest with
    | '.' :: r => r.span Text.isDigit
    | r => ([], r)
  if whole.isEmpty && fraction.isEmpty then none
  else
    match rest with
    | [] => some ⟨whole, fraction, 0⟩
    | e :: r =>
      if e = 'e' ∨ e = 'E' then
        let (negative, ds) := sign r
        if ds.isEmpty || !ds.all Text.isDigit then none
        else some ⟨whole, fraction, if negative then -(value ds : Int) else value ds⟩
      else none

/-- The float that a text without blanks spells. -/
def realOfChars (cs : List Char) : Option Float :=
  let (negative, body) := sign cs
  let word := String.ofList (body.map Char.toLower)
  if word = "nan" then some Real64.nan
  else if word = "inf" ∨ word = "infinity" then some (if negative then -Real64.infinity else Real64.infinity)
  else
    (parts? body).map fun p =>
      Binary.ofDecimal negative (value (p.whole ++ p.fraction)) (p.exponent - p.fraction.length)

/-- Removes underscores that stand between two characters that are no underscores; none if one stands elsewhere. -/
def dropUnderscores (cs : List Char) : Option (List Char) :=
  if cs.head? = some '_' ∨ cs.getLast? = some '_' then none
  else go cs
where
  go : List Char → Option (List Char)
    | [] => some []
    | '_' :: '_' :: _ => none
    | '_' :: rest => go rest
    | c :: rest => (go rest).map (c :: ·)

/-- The float that a text spells, with blanks around it or with underscores in it. -/
def realOfText (s : String) : Option Float :=
  match realOfChars (trim s.toList) with
  | some x => some x
  | none => (dropUnderscores s.toList).bind realOfChars

/-- The float nearest to an integer, if it is in range. -/
def realOfWhole (n : Int) : Option Float :=
  let x := Real64.ofInt n
  if x.isFinite then some x else none

/-- A float, and whether it was given as one. -/
def real? : Data → Option (Float × Bool)
  | .float x => some (x, true)
  | .int n => (realOfWhole n).map (·, false)
  | .bool b => some (if b then 1 else 0, false)
  | .str s => (realOfText s).map (·, false)
  | _ => none

/-- The boolean a word stands for, in any case. -/
def flagOfText (s : String) : Option Bool :=
  let w := s.toLower
  if ["0", "off", "f", "false", "n", "no"].contains w then some false
  else if ["1", "on", "t", "true", "y", "yes"].contains w then some true
  else none

/-- A boolean, and whether it was given as one. -/
def flag? : Data → Option (Bool × Bool)
  | .bool b => some (b, true)
  | .int n => if n = 0 then some (false, false) else if n = 1 then some (true, false) else none
  | .float x => if x == 0 then some (false, false) else if x == 1 then some (true, false) else none
  | .str s => (flagOfText s).map (·, false)
  | _ => none

end ServerTrial.Scalar
