import ServerTrial.Text.Classes

/-!
# Lua literals

Texts as literals of the language that drives the editor: between long brackets, between double quotes in ASCII,
or for a place between single quotes; and names as identifiers.
-/

namespace ServerTrial.Lua

/-- The closing bracket of a level. -/
def closing (level : Nat) : List Char := ']' :: (List.replicate level '=' ++ [']'])

/-- Where a pattern starts for the first time. -/
def indexOf? (pattern : List Char) : List Char → Option Nat
  | [] => if pattern.isEmpty then some 0 else none
  | c :: cs => if pattern.isPrefixOf (c :: cs) then some 0 else (indexOf? pattern cs).map (· + 1)

/-- Does the closing bracket of a level, put behind the text, close nothing before? -/
def closesAtEnd (text : List Char) (level : Nat) : Bool :=
  indexOf? (closing level) (text ++ closing level) == some text.length

/-- The least level from `level` on whose closing bracket ends the text, among the next `fuel` levels. -/
def levelFrom (text : List Char) : Nat → Nat → Nat
  | 0, level => level
  | fuel + 1, level => if closesAtEnd text level then level else levelFrom text fuel (level + 1)

/-- The level of the brackets around a text. -/
def level (text : List Char) : Nat := levelFrom text (text.length + 1) 0

/-- A text between long brackets.  The line feed behind the opening one is not part of it. -/
def longString (text : String) : String :=
  let cs := text.toList
  let n := level cs
  String.ofList ('[' :: (List.replicate n '=' ++ ['[', '\n']) ++ cs ++ closing n)

/-- A decimal digit. -/
def digitChar (n : Nat) : Char := Char.ofNat (0x30 + n % 10)

/-- A byte between double quotes. -/
def quoteByte (b : UInt8) : List Char :=
  let n := b.toNat
  if n = 0x22 ∨ n = 0x5C then ['\\', Char.ofNat n]
  else if 0x20 ≤ n ∧ n < 0x7F then [Char.ofNat n]
  else ['\\', digitChar (n / 100), digitChar (n / 10), digitChar n]

/-- A whole text between double quotes; all that is not printable ASCII is written as bytes. -/
def quoted (text : String) : String := String.ofList ('"' :: (text.toUTF8.toList.flatMap quoteByte ++ ['"']))

/-- A character between single quotes. -/
def escapeSingle (c : Char) : List Char :=
  if c = '\\' then ['\\', '\\'] else if c = '\'' then ['\\', '\''] else [c]

/-- A text for a place between single quotes. -/
def inSingleQuotes (text : String) : String := String.ofList (text.toList.flatMap escapeSingle)

def isWordChar (c : Char) : Bool := Text.isLetter c || Text.isDigit c || c == '_'

/-- An identifier like a name: letters, digits and underscores of ASCII, and no digit in front. -/
def identifier (name : String) : String :=
  let cs := name.toList.map fun c => if isWordChar c then c else '_'
  match cs with
  | [] => "v_"
  | c :: _ => if Text.isDigit c then "v_" ++ String.ofList cs else String.ofList cs

end ServerTrial.Lua
