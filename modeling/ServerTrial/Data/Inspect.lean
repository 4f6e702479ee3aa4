import ServerTrial.Data.Basic
import ServerTrial.Number.Text
import ServerTrial.Text.Quoted

/-!
# Inspecting data

The text of a value in error reports: words with capital letters for the constants, quoted strings, brackets
and braces.  `Data.plain` is the text of a value where a text is wanted: a string stands for itself.
-/

namespace ServerTrial

/-- Words with commas between them, in brackets. -/
def bracketed (left right : String) (parts : List String) : String := left ++ ", ".intercalate parts ++ right

/-- Words in parentheses; a comma stands behind a single one. -/
def tupleText : List String → String
  | [x] => "(" ++ x ++ ",)"
  | xs => bracketed "(" ")" xs

namespace Moment

def digits (width n : Nat) : String :=
  let s := toString n
  Real64.zeros (width - s.length) ++ s

/-- The numbers of a time, without seconds and microseconds that are zero. -/
def clockParts (c : Clock) : List String :=
  if c.micro ≠ 0 then [toString c.hour, toString c.minute, toString c.second, toString c.micro]
  else if c.second ≠ 0 then [toString c.hour, toString c.minute, toString c.second]
  else [toString c.hour, toString c.minute]

def dayParts (d : Day) : List String := [toString d.year, toString d.month, toString d.day]

/-- The offset as whole days and the seconds above them. -/
def offsetText (offset : Int) : String :=
  let seconds := offset * 60
  if seconds = 0 then "datetime.timezone.utc"
  else if seconds > 0 then "datetime.timezone(datetime.timedelta(seconds=" ++ toString seconds ++ "))"
  else "datetime.timezone(datetime.timedelta(days=-1, seconds=" ++ toString (seconds + 86400) ++ "))"

def inspect : Moment → String
  | day d => bracketed "datetime.date(" ")" (dayParts d)
  | clock c => bracketed "datetime.time(" ")" (clockParts c)
  | civil d c => bracketed "datetime.datetime(" ")" (dayParts d ++ clockParts c)
  | zoned d c offset =>
    bracketed "datetime.datetime(" ")" (dayParts d ++ clockParts c ++ ["tzinfo=" ++ offsetText offset])

def dayText (d : Day) : String := digits 4 d.year ++ "-" ++ digits 2 d.month ++ "-" ++ digits 2 d.day

def clockText (c : Clock) : String :=
  digits 2 c.hour ++ ":" ++ digits 2 c.minute ++ ":" ++ digits 2 c.second ++
    (if c.micro = 0 then "" else "." ++ digits 6 c.micro)

/-- Date and time in figures, `separator` between them. -/
def text (separator : String) : Moment → String
  | day d => dayText d
  | clock c => clockText c
  | civil d c => dayText d ++ separator ++ clockText c
  | zoned d c offset =>
    dayText d ++ separator ++ clockText c ++ (if offset < 0 then "-" else "+") ++
      digits 2 (offset.natAbs / 60) ++ ":" ++ digits 2 (offset.natAbs % 60)

end Moment

namespace Data

mutual

/-- The text of a value in reports. -/
def inspect : Data → String
  | null => "None"
  | bool b => if b then "True" else "False"
  | int n => toString n
  | float x => Real64.text .plain x
  | str s => Text.quote s
  | moment m => m.inspect
  | arr items => bracketed "[" "]" (inspectItems items)
  | obj entries => bracketed "\x7b" "\x7d" (inspectEntries entries)

def inspectItems : List Data → List String
  | [] => []
  | x :: xs => inspect x :: inspectItems xs

def inspectEntries : List (String × Data) → List String
  | [] => []
  | (k, x) :: xs => (Text.quote k ++ ": " ++ inspect x) :: inspectEntries xs

end

/-- The text a value stands for. -/
def plain : Data → String
  | str s => s
  | moment m => m.text " "
  | d => d.inspect

end Data

end ServerTrial
