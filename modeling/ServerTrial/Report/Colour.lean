/-!
# Colours

Text in colour for a terminal, and the same text without.
-/

namespace ServerTrial

/-- Colours of the foreground. -/
inductive Colour where
  | black | red | green | yellow | blue | magenta | cyan | white
  /-- The colour that a terminal starts with. -/
  | reset
  | brightBlack | brightRed | brightGreen | brightYellow | brightBlue | brightMagenta | brightCyan | brightWhite
  deriving DecidableEq, Repr, Inhabited

namespace Colour

def code : Colour → String
  | black => "30"
  | red => "31"
  | green => "32"
  | yellow => "33"
  | blue => "34"
  | magenta => "35"
  | cyan => "36"
  | white => "37"
  | reset => "39"
  | brightBlack => "90"
  | brightRed => "91"
  | brightGreen => "92"
  | brightYellow => "93"
  | brightBlue => "94"
  | brightMagenta => "95"
  | brightCyan => "96"
  | brightWhite => "97"

/-- All colours with their names. -/
def named : List (String × Colour) :=
  [("black", black), ("red", red), ("green", green), ("yellow", yellow), ("blue", blue), ("magenta", magenta),
    ("cyan", cyan), ("white", white), ("reset", reset), ("bright_black", brightBlack), ("bright_red", brightRed),
    ("bright_green", brightGreen), ("bright_yellow", brightYellow), ("bright_blue", brightBlue),
    ("bright_magenta", brightMagenta), ("bright_cyan", brightCyan), ("bright_white", brightWhite)]

def ofName? (name : String) : Option Colour := (named.find? fun e => e.1 == name).map Prod.snd

/-- Text in a colour, with the default restored behind it. -/
def paint (c : Colour) (text : String) : String := "\x1b[" ++ c.code ++ "m" ++ text ++ "\x1b[0m"

/-- The characters that may stand between the bracket and the final letter of a control sequence. -/
def isParameter (c : Char) : Bool := c == ';' || c == '?' || ('0' ≤ c && c ≤ '9')

/-- Drops control sequences; `hold` keeps what was read of one that is not complete. -/
def strip (hold : List Char) : List Char → List Char
  | [] => hold.reverse
  | c :: rest =>
    match hold with
    | [] => if c = '\x1b' then strip [c] rest else c :: strip [] rest
    | [_] =>
      if c = '[' then strip (c :: hold) rest
      else if c = '\x1b' then hold.reverse ++ strip [c] rest
      else hold.reverse ++ c :: strip [] rest
    | _ =>
      if isParameter c then strip (c :: hold) rest
      else if ('a' ≤ c ∧ c ≤ 'z') ∨ ('A' ≤ c ∧ c ≤ 'Z') then strip [] rest
      else if c = '\x1b' then hold.reverse ++ strip [c] rest
      else hold.reverse ++ c :: strip [] rest

/-- Text without control sequences. -/
def bare (text : String) : String := String.ofList (strip [] text.toList)

end Colour

end ServerTrial
