import ServerTrial.Protocol.Scalar
import ServerTrial.Failure

/-!
# Numbers from settings

Settings may give a number as a number, a boolean or a text with blanks around it, digits of any script and
single underscores between digits.
-/

namespace ServerTrial

namespace Data

/-- The word for the kind of a value in reports. -/
def kindName : Data → String
  | null => "NoneType"
  | bool _ => "bool"
  | int _ => "int"
  | float _ => "float"
  | str _ => "str"
  | moment (.day _) => "datetime.date"
  | moment (.clock _) => "datetime.time"
  | moment _ => "datetime.datetime"
  | arr _ => "list"
  | obj _ => "dict"

/-- Digits of any script as ASCII digits. -/
def asciiDigits (cs : List Char) : List Char :=
  cs.map fun c =>
    match Text.digit? c with
    | some n => Char.ofNat (0x30 + n)
    | none => c

/-- Removes underscores that stand between digits; none if one stands elsewhere. -/
def joinDigits (previous : Char) : List Char → Option (List Char)
  | [] => if previous = '_' then none else some []
  | '_' :: rest => if Text.isDigit previous then joinDigits '_' rest else none
  | c :: rest => if previous = '_' && !Text.isDigit c then none else (joinDigits c rest).map (c :: ·)

/-- Blanks that may stand around a number: white space but for the separators among the controls. -/
def isMargin (c : Char) : Bool := Text.isBlank c && !(0x1C ≤ c.toNat && c.toNat ≤ 0x1F)

/-- The characters of a number text. -/
def numberChars (s : String) : Option (List Char) :=
  joinDigits ' ' (asciiDigits ((s.toList.dropWhile isMargin).reverse.dropWhile isMargin).reverse)

/-- The float that a setting gives. -/
def toReal : Data → Except Fault Float
  | float x => .ok x
  | bool b => .ok (if b then 1 else 0)
  | int n =>
    let x := Real64.ofInt n
    if x.isFinite then .ok x else .error (.overflow "int too large to convert to float")
  | str s =>
    match (numberChars s).bind Scalar.realOfChars with
    | some x => .ok x
    | none => .error (.value ("could not convert string to float: " ++ Text.quote s))
  | _ => .error .kind

/-- The sign and the digits of an integer. -/
def wholeParts? (s : String) : Option (Bool × List Char) := do
  let (negative, digits) := Scalar.sign (← numberChars s)
  if digits.isEmpty || !digits.all Text.isDigit then none else some (negative, digits)

/-- The most characters of a text that a report on it shows. -/
def shownLimit : Nat := 200

/-- The integer that a text gives. -/
def wholeOfText (s : String) : Except Fault Int :=
  match wholeParts? s with
  | some (negative, digits) =>
    if digits.length > digitLimit then .error (.value (tooManyDigits digits.length))
    else .ok (if negative then -(Scalar.value digits : Int) else Scalar.value digits)
  | none =>
    .error (.value ("invalid literal for int() with base 10: " ++
      String.ofList ((Text.quote s).toList.take shownLimit)))

/-- The integer part of a float. -/
def truncated (x : Float) : Except Fault Int :=
  match Real64.truncate? x with
  | some n => .ok n
  | none =>
    if x.isNaN then .error (.value "cannot convert float NaN to integer")
    else .error (.overflow "cannot convert float infinity to integer")

/-- The integer that a setting gives. -/
def toWhole : Data → Except Fault Int
  | int n => .ok n
  | bool b => .ok (if b then 1 else 0)
  | float x => truncated x
  | str s => wholeOfText s
  | d =>
    .error (.value
      ("int() argument must be a string, a bytes-like object or a real number, not '" ++ d.kindName ++ "'"))

end Data

end ServerTrial
