import ServerTrial.Text.Printable
import ServerTrial.Text.Surrogate

/-!
# Quoted texts

A text as it appears in reports: between single quotes, or between double quotes when it holds a single quote
and no double quote.  The quote itself, the backslash and all that is not printable are escaped.
-/

namespace ServerTrial.Text

/-- `n` in lower-case hexadecimal with at least `width` digits. -/
def hex (width n : Nat) : String :=
  let digits := String.ofList (Nat.toDigits 16 n)
  String.ofList (List.replicate (width - digits.length) '0') ++ digits

/-- One code point between quotes. -/
def quotePoint (quote : Nat) (point : Nat) : String :=
  if point = quote ∨ point = 0x5C then String.ofList ['\\', Char.ofNat point]
  else if point = 0x0A then "\\n"
  else if point = 0x0D then "\\r"
  else if point = 0x09 then "\\t"
  else if isPrintable point then String.singleton (Char.ofNat point)
  else if point < 0x100 then "\\x" ++ hex 2 point
  else if point < 0x10000 then "\\u" ++ hex 4 point
  else "\\U" ++ hex 8 point

/-- Which quote stands around the code points. -/
def quoteFor (ps : List Nat) : Nat := if ps.contains 0x27 && !ps.contains 0x22 then 0x22 else 0x27

/-- Quotes a list of code points. -/
def quotePoints (ps : List Nat) : String :=
  let quote := quoteFor ps
  let mark := String.singleton (Char.ofNat quote)
  mark ++ String.join (ps.map (quotePoint quote)) ++ mark

/-- Quotes a text. -/
def quote (s : String) : String := quotePoints (points s)

end ServerTrial.Text
