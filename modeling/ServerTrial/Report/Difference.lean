import ServerTrial.Data.JsonWriter
import ServerTrial.Report.Colour

/-!
# Differences

Two values side by side, field by field: equal leaves in green, different ones in red with both sides.  The keys
of an object are visited in order; those that only the actual value has stand at the end of their object.
-/

namespace ServerTrial

/-- A line of a report: plain text, then text in a colour. -/
structure Line where
  lead : String
  colour : Option Colour
  text : String
  deriving DecidableEq, Repr, Inhabited

namespace Line

def plain (text : String) : Line := ⟨text, none, ""⟩

def red (text : String) : Line := ⟨"", some .red, text⟩

def green (lead text : String) : Line := ⟨lead, some .green, text⟩

def render (l : Line) : String :=
  match l.colour with
  | some c => l.lead ++ c.paint l.text
  | none => l.lead

end Line

namespace Difference

/-- A side of a comparison; none where there is nothing. -/
def show? : Option Data → String
  | none => "<missing>"
  | some d => d.toJsonSorted

def sameSide : Option Data → Option Data → Bool
  | some a, some b => a.same b
  | none, none => true
  | _, _ => false

/-- The lines for a place that is not entered. -/
def leaf (name : String) (depth : Nat) (expected actual : Option Data) : List Line :=
  let padding := Data.indent depth
  if sameSide expected actual then
    [.green (if name.isEmpty then padding else padding ++ name ++ ": ") (show? expected)]
  else
    (if name.isEmpty then [] else [.plain (padding ++ name ++ ":")]) ++
      [.red (padding ++ "  Expected: " ++ show? expected), .red (padding ++ "  Actual: " ++ show? actual)]

/-- The line above the entries of a named object or array. -/
def heading (name : String) (depth : Nat) : List Line :=
  if name.isEmpty then [] else [.plain (Data.indent depth ++ name ++ ":")]

/-- Entries of a named place are indented. -/
def inner (name : String) (depth : Nat) : Nat := if name.isEmpty then depth else depth + 1

def indexName (i : Nat) : String := "[" ++ toString i ++ "]"

/-- The keys that only the actual object has. -/
def extraLines (depth : Nat) (expected actual : List (String × Data)) : List Line :=
  match Json.sortEntries (actual.filter fun e => (Data.find? e.1 expected).isNone) with
  | [] => []
  | extra =>
    .red (Data.indent depth ++ "Actual has extra keys:") ::
      extra.map fun e => .red (Data.indent depth ++ "  " ++ e.1 ++ ": " ++ e.2.toJsonSorted)

/-- What waits for the actual side, a name and a depth. -/
abbrev Pending := Option Data → String → Nat → List Line

/-- The items of two arrays from index `i` on. -/
def items (depth : Nat) : Nat → List Pending → List Data → List Line
  | _, [], [] => []
  | i, [], a :: as => leaf (indexName i) depth none (some a) ++ items depth (i + 1) [] as
  | i, e :: es, [] => e none (indexName i) depth ++ items depth (i + 1) es []
  | i, e :: es, a :: as => e (some a) (indexName i) depth ++ items depth (i + 1) es as

mutual

/-- The lines for an expected value. -/
def lines : Data → Pending
  | .obj xs => fun actual name depth =>
    match actual with
    | some (.obj ys) =>
      heading name depth ++
        (Json.sortEntries (linesOfEntries xs)).flatMap (fun e => e.2 (Data.find? e.1 ys) e.1 (inner name depth)) ++
        extraLines (inner name depth) xs ys
    | _ => leaf name depth (some (.obj xs)) actual
  | .arr xs => fun actual name depth =>
    match actual with
    | some (.arr ys) => heading name depth ++ items (inner name depth) 0 (linesOfItems xs) ys
    | _ => leaf name depth (some (.arr xs)) actual
  | d => fun actual name depth => leaf name depth (some d) actual

def linesOfItems : List Data → List Pending
  | [] => []
  | x :: xs => lines x :: linesOfItems xs

def linesOfEntries : List (String × Data) → List (String × Pending)
  | [] => []
  | (k, x) :: xs => (k, lines x) :: linesOfEntries xs

end

end Difference

/-- The comparison of two values as text, a line feed behind every line. -/
def differenceText (expected actual : Data) : String :=
  "\n".intercalate ((Difference.lines expected (some actual) "" 0).map Line.render) ++ "\n"

/-- Values one below the other, each in a colour. -/
def itemsText (colour : Colour) (items : List Data) : String :=
  String.join (items.map fun d => colour.paint d.toJsonIndented ++ "\n")

end ServerTrial
