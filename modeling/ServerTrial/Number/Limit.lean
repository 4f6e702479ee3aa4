/-!
# Limits of readers

A decimal integer may have so many digits and no more, and brackets may nest so deep and no deeper.
-/

namespace ServerTrial

/-- The most digits that a decimal integer may have in a text. -/
def digitLimit : Nat := 4300

/-- The report on an integer with more digits. -/
def tooManyDigits (count : Nat) : String :=
  "Exceeds the limit (" ++ toString digitLimit ++ " digits) for integer string conversion: value has " ++
    toString count ++ " digits; use sys.set_int_max_str_digits() to increase the limit"

/-- How deep brackets may nest. -/
def nestingLimit : Nat := 840

end ServerTrial
