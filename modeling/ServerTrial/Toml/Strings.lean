import ServerTrial.Text.Classes

/-!
# Strings and keys of TOML

A reader takes characters from the front and yields nothing where the text is no TOML.  Line ends are single line
feeds here.
-/

namespace ServerTrial.Toml

/-- A reader takes characters from the front. -/
abbrev Read (α : Type) := Option (α × List Char)

def isSpace (c : Char) : Bool := c == ' ' || c == '\t'

def isSpaceOrLine (c : Char) : Bool := isSpace c || c == '\n'

def skipSpace (cs : List Char) : List Char := cs.dropWhile isSpace

/-- May the character not stand in a line?  Controls but the tab may not. -/
def isControl (c : Char) : Bool := (c.toNat < 0x20 && c != '\t') || c.toNat == 0x7F

def isBareKey (c : Char) : Bool := Text.isLetter c || Text.isDigit c || c == '-' || c == '_'

def isHex (c : Char) : Bool := Text.isDigit c || ('a' ≤ c && c ≤ 'f') || ('A' ≤ c && c ≤ 'F')

def hexDigit (c : Char) : Nat :=
  if Text.isDigit c then c.toNat - 48 else if 'a' ≤ c then c.toNat - 87 else c.toNat - 55

/-- The character with a hexadecimal number, if it is one. -/
def hexChar? (digits : List Char) : Option Char :=
  if digits.all isHex then
    let n := digits.foldl (fun n c => 16 * n + hexDigit c) 0
    if n < 0xD800 ∨ (0xDFFF < n ∧ n ≤ 0x10FFFF) then some (Char.ofNat n) else none
  else none

/-- The character that a letter behind a backslash stands for. -/
def escape? : Char → Option Char
  | 'b' => some '\x08'
  | 't' => some '\t'
  | 'n' => some '\n'
  | 'f' => some '\x0c'
  | 'r' => some '\r'
  | 'e' => some '\x1b'
  | '"' => some '"'
  | '\\' => some '\\'
  | _ => none

/-- Puts a character in front of what is read. -/
def push (c : Char) : Read (List Char) → Read (List Char)
  | some (cs, rest) => some (c :: cs, rest)
  | none => none

/-- A string in double quotes, behind the opening one. -/
def basic : List Char → Read (List Char)
  | [] => none
  | '"' :: rest => some ([], rest)
  | '\\' :: 'x' :: a :: b :: rest =>
    match hexChar? [a, b] with
    | some x => push x (basic rest)
    | none => none
  | '\\' :: 'u' :: a :: b :: c :: d :: rest =>
    match hexChar? [a, b, c, d] with
    | some x => push x (basic rest)
    | none => none
  | '\\' :: 'U' :: a :: b :: c :: d :: e :: f :: g :: h :: rest =>
    match hexChar? [a, b, c, d, e, f, g, h] with
    | some x => push x (basic rest)
    | none => none
  | '\\' :: c :: rest =>
    match escape? c with
    | some x => push x (basic rest)
    | none => none
  | c :: rest => if isControl c ∨ c = '\\' then none else push c (basic rest)

/-- A string in single quotes, behind the opening one. -/
def literal : List Char → Read (List Char)
  | [] => none
  | '\'' :: rest => some ([], rest)
  | c :: rest => if isControl c then none else push c (literal rest)

/-- Where a string over several lines goes on: inside text, behind a backslash with spaces up to the line end, or
in the blanks behind that. -/
inductive Mode where
  | inText | beforeLine | afterLine
  deriving DecidableEq, Repr

/-- A string in three double quotes, behind the opening ones; one or two quotes may stand before the closing
ones. -/
def basicLines : Mode → List Char → Read (List Char)
  | _, [] => none
  | .beforeLine, c :: rest =>
    if isSpace c then basicLines .beforeLine rest
    else if c = '\n' then basicLines .afterLine rest
    else none
  | .afterLine, ' ' :: rest => basicLines .afterLine rest
  | .afterLine, '\t' :: rest => basicLines .afterLine rest
  | .afterLine, '\n' :: rest => basicLines .afterLine rest
  | _, '"' :: '"' :: '"' :: '"' :: '"' :: rest => some (['"', '"'], rest)
  | _, '"' :: '"' :: '"' :: '"' :: rest => some (['"'], rest)
  | _, '"' :: '"' :: '"' :: rest => some ([], rest)
  | _, '\\' :: 'x' :: a :: b :: rest =>
    match hexChar? [a, b] with
    | some x => push x (basicLines .inText rest)
    | none => none
  | _, '\\' :: 'u' :: a :: b :: c :: d :: rest =>
    match hexChar? [a, b, c, d] with
    | some x => push x (basicLines .inText rest)
    | none => none
  | _, '\\' :: 'U' :: a :: b :: c :: d :: e :: f :: g :: h :: rest =>
    match hexChar? [a, b, c, d, e, f, g, h] with
    | some x => push x (basicLines .inText rest)
    | none => none
  | _, '\\' :: '\n' :: rest => basicLines .afterLine rest
  | _, '\\' :: c :: rest =>
    if isSpace c then basicLines .beforeLine rest
    else
      match escape? c with
      | some x => push x (basicLines .inText rest)
      | none => none
  | _, c :: rest =>
    if (isControl c && c != '\n') ∨ c = '\\' then none else push c (basicLines .inText rest)

/-- A string in three single quotes, behind the opening ones. -/
def literalLines : List Char → Read (List Char)
  | [] => none
  | '\'' :: '\'' :: '\'' :: '\'' :: '\'' :: rest => some (['\'', '\''], rest)
  | '\'' :: '\'' :: '\'' :: '\'' :: rest => some (['\''], rest)
  | '\'' :: '\'' :: '\'' :: rest => some ([], rest)
  | c :: rest => if isControl c && c != '\n' then none else push c (literalLines rest)

/-- Without a line feed in front. -/
def dropLine : List Char → List Char
  | '\n' :: rest => rest
  | cs => cs

/-- Any string. -/
def string : List Char → Read (List Char)
  | '"' :: '"' :: '"' :: rest => basicLines .inText (dropLine rest)
  | '"' :: rest => basic rest
  | '\'' :: '\'' :: '\'' :: rest => literalLines (dropLine rest)
  | '\'' :: rest => literal rest
  | _ => none

/-- One part of a key. -/
def keyPart : List Char → Read String
  | '"' :: rest => (basic rest).map fun r => (String.ofList r.1, r.2)
  | '\'' :: rest => (literal rest).map fun r => (String.ofList r.1, r.2)
  | cs =>
    let (word, rest) := cs.span isBareKey
    if word.isEmpty then none else some (String.ofList word, rest)

/-- The parts of a key with dots between them, at most `fuel` of them. -/
def keyParts : Nat → List Char → Read (List String)
  | 0, _ => none
  | fuel + 1, cs =>
    match keyPart cs with
    | none => none
    | some (part, rest) =>
      match skipSpace rest with
      | '.' :: rest =>
        match keyParts fuel (skipSpace rest) with
        | some (parts, rest) => some (part :: parts, rest)
        | none => none
      | rest => some ([part], rest)

/-- A key, with the spaces behind it. -/
def key (cs : List Char) : Read (List String) := keyParts (cs.length + 1) cs

/-- A comment, if one starts here. -/
def comment : List Char → Option (List Char)
  | '#' :: rest =>
    let (text, rest) := rest.span (· != '\n')
    if text.any isControl then none else some rest
  | cs => some cs

end ServerTrial.Toml
