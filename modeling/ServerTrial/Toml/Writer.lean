import ServerTrial.Toml.Strings
import ServerTrial.Data.Inspect

/-!
# Writing TOML

A table is written with its plain entries first and the tables in it as sections of their own.  Arrays take a line
an item.  An array of tables is written in line when every table of it fits into a line, and as repeated sections
otherwise.  Null has no TOML form.
-/

namespace ServerTrial

namespace Toml

/-- The longest line for a table in an array. -/
def lineLimit : Nat := 100

/-- One step of indentation. -/
def step : String := "    "

/-- A character in double quotes. -/
def escapeChar (c : Char) : String :=
  if c = '"' then "\\\""
  else if c = '\\' then "\\\\"
  else if c = '\x08' then "\\b"
  else if c = '\n' then "\\n"
  else if c = '\x0c' then "\\f"
  else if c = '\r' then "\\r"
  else if isControl c then "\\u" ++ Text.hex 4 c.toNat
  else String.singleton c

def stringText (s : String) : String := "\"" ++ String.join (s.toList.map escapeChar) ++ "\""

/-- A part of a key, quoted unless it is a bare word. -/
def keyText (key : String) : String := if !key.isEmpty && key.toList.all isBareKey then key else stringText key

/-- All texts, if there are all. -/
def allSome : List (Option String) → Option (List String)
  | [] => some []
  | some x :: xs => (allSome xs).map (x :: ·)
  | none :: _ => none

mutual

/-- A value on the right of an equals sign, `level` arrays deep. -/
def valueText (level : Nat) : Data → Option String
  | .null => none
  | .bool b => some (if b then "true" else "false")
  | .int n => some (toString n)
  | .float x => some (Real64.text .plain x)
  | .str s => some (stringText s)
  | .moment m => some (m.text " ")
  | .arr [] => some "[]"
  | .arr items =>
    (allSome (valueTexts (level + 1) items)).map fun texts =>
      "[\n" ++ ",\n".intercalate (texts.map fun t => Text.times (level + 1) step ++ t) ++ ",\n" ++
        Text.times level step ++ "]"
  | .obj [] => some "\x7b\x7d"
  | .obj entries =>
    (allSome (entryTexts entries)).map fun texts => "\x7b " ++ ", ".intercalate texts ++ " \x7d"

def valueTexts (level : Nat) : List Data → List (Option String)
  | [] => []
  | x :: xs => valueText level x :: valueTexts level xs

/-- Entries of a table in line. -/
def entryTexts : List (String × Data) → List (Option String)
  | [] => []
  | (k, x) :: xs => (valueText 0 x).map (fun t => keyText k ++ " = " ++ t) :: entryTexts xs

end

/-- Does a table fit into a line of an array? -/
def fitsLine (d : Data) : Bool :=
  match valueText 0 d with
  | some t => step.length + t.length + 1 ≤ lineLimit && !t.toList.contains '\n'
  | none => true

def isTable : Data → Bool
  | .obj _ => true
  | _ => false

/-- Is the value written as sections of their own and not behind an equals sign? -/
def isSection : Data → Bool
  | .obj _ => true
  | .arr items => !items.isEmpty && items.all isTable && !items.all fitsLine
  | _ => false

/-- The text of a section, waiting for its name and whether it is one of an array. -/
abbrev Pending := String → Bool → Option String

/-- Puts a section together from its plain entries and the sections in it. -/
def assembleSection (plain : List (String × Data)) (sections : List (String × Bool × Pending)) : Pending :=
  fun name inArray =>
    let header : List (Option String) :=
      if inArray then [some ("[[" ++ name ++ "]]\n")]
      else if !name.isEmpty && (!plain.isEmpty || sections.isEmpty) then [some ("[" ++ name ++ "]\n")]
      else []
    let lines := (entryTexts plain).map fun t => t.map (· ++ "\n")
    let own := header ++ lines
    let inner := sections.map fun s =>
      s.2.2 (if name.isEmpty then keyText s.1 else name ++ "." ++ keyText s.1) s.2.1
    match allSome own, allSome inner with
    | some own, some inner => some ("\n".intercalate ((if own.isEmpty then [] else [String.join own]) ++ inner))
    | _, _ => none

mutual

/-- A table as a section. -/
def section? : Data → Pending
  | .obj entries => assembleSection (entries.filter fun e => !isSection e.2) (sectionsOf entries)
  | _ => fun _ _ => none

/-- The sections among the entries of a table. -/
def sectionsOf : List (String × Data) → List (String × Bool × Pending)
  | [] => []
  | (k, .obj inner) :: rest => (k, false, section? (.obj inner)) :: sectionsOf rest
  | (k, .arr items) :: rest =>
    (if isSection (.arr items) then (sectionItems items).map fun p => (k, true, p) else []) ++ sectionsOf rest
  | _ :: rest => sectionsOf rest

def sectionItems : List Data → List Pending
  | [] => []
  | x :: xs => section? x :: sectionItems xs

end

end Toml

/-- The TOML text of a table; none if it holds what TOML cannot. -/
def Data.toToml (entries : List (String × Data)) : Option String := Toml.section? (.obj entries) "" false

end ServerTrial
