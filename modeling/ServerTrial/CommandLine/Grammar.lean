import ServerTrial.Text.Likeness
import ServerTrial.Text.Quoted
import ServerTrial.Text.Classes

/-!
# Grammars of commands

What may stand behind a command: switches, of which some take a value, and arguments.  `Grammar.scan` tells them
apart; `Grammar.helpPage` describes them, laid out for 80 columns.
-/

namespace ServerTrial.CommandLine

structure Switch where
  /-- All names, the long one last. -/
  names : List String
  /-- The word for its value, if it takes one. -/
  value : Option String
  /-- What it does, in lines. -/
  help : List String
  deriving Inhabited

namespace Switch

/-- The name that a switch is known by. -/
def key (s : Switch) : String := s.names.getLastD ""

def helpSwitch : Switch := ⟨["-h", "--help"], none, ["Show this message and exit."]⟩

/-- The names and the word for the value. -/
def signature (s : Switch) : String :=
  ", ".intercalate s.names ++ (match s.value with
    | some word => " " ++ word
    | none => "")

end Switch

structure Grammar where
  /-- The words that lead to the command. -/
  command : String
  switches : List Switch
  /-- The words for what stands behind the switches. -/
  arguments : List String
  /-- May switches stand behind arguments? -/
  mixed : Bool
  /-- What the command does, in paragraphs of lines. -/
  about : List (List String)
  /-- The commands below this one, with what they do. -/
  commands : List (String × String)
  deriving Inhabited

/-- Why a command cannot be understood. -/
inductive UsageError where
  | noSuchOption (name : String) (closest : List String)
  | noSuchCommand (name : String) (closest : List String)
  | takesNoValue (name : String)
  | needsValue (name : String)
  | missingArgument (word : String)
  | missingOption (name : String)
  | missingCommand
  | invalid (word detail : String)
  | unexpected (arguments : List String)
  deriving DecidableEq, Repr, Inhabited

namespace UsageError

/-- What may have been meant. -/
def suggestion (closest : List String) : String :=
  match closest with
  | [] => ""
  | [x] => " Did you mean " ++ Text.quote x ++ "?"
  | xs => " (Did you mean one of: " ++
      ", ".intercalate ((xs.mergeSort Text.le).map Text.quote) ++ "?)"

def message : UsageError → String
  | noSuchOption name closest => "No such option " ++ Text.quote name ++ "." ++ suggestion closest
  | noSuchCommand name closest => "No such command " ++ Text.quote name ++ "." ++ suggestion closest
  | takesNoValue name => "Option " ++ Text.quote name ++ " does not take a value."
  | needsValue name => "Option " ++ Text.quote name ++ " requires an argument."
  | missingArgument word => "Missing argument '" ++ word ++ "'."
  | missingOption name => "Missing option '" ++ name ++ "'."
  | missingCommand => "Missing command."
  | invalid word detail => "Invalid value for '" ++ word ++ "': " ++ detail
  | unexpected [x] => "Got unexpected extra argument (" ++ x ++ ")"
  | unexpected xs => "Got unexpected extra arguments (" ++ " ".intercalate xs ++ ")"

/-- Is the usage of the command shown with the error?  It is unless the error is about the value of a switch. -/
def showsUsage : UsageError → Bool
  | takesNoValue _ => false
  | needsValue _ => false
  | _ => true

end UsageError

/-- Switches with their values, in the order in which they were given, and the arguments. -/
structure Scan where
  given : List (String × String)
  arguments : List String
  deriving DecidableEq, Repr, Inhabited

namespace Scan

def has (s : Scan) (key : String) : Bool := s.given.any fun g => g.1 == key

/-- The value of a switch; the last one counts. -/
def value? (s : Scan) (key : String) : Option String := (s.given.reverse.find? fun g => g.1 == key).map Prod.snd

/-- With a switch in front. -/
def give (key value : String) (s : Scan) : Scan := { s with given := (key, value) :: s.given }

/-- With an argument in front. -/
def argue (a : String) (s : Scan) : Scan := { s with arguments := a :: s.arguments }

end Scan

namespace Grammar

/-- All switches; every command can describe itself. -/
def allSwitches (g : Grammar) : List Switch := g.switches ++ [Switch.helpSwitch]

/-- The switch with a name. -/
def find? (g : Grammar) (name : String) : Option Switch := g.allSwitches.find? fun s => s.names.contains name

/-- The long names. -/
def longNames (g : Grammar) : List String := g.allSwitches.map Switch.key

/-- A long switch and the value attached to it. -/
def splitValue (a : String) : String × Option String :=
  let cs := a.toList
  let name := cs.takeWhile (· != '=')
  (String.ofList name, if name.length < cs.length then some (String.ofList (cs.drop (name.length + 1))) else none)

/-- Switches of one letter each, none of which takes a value. -/
def letters (g : Grammar) : List Char → Except UsageError (List String)
  | [] => .ok []
  | c :: rest =>
    let name := String.ofList ['-', c]
    match g.find? name with
    | some s => (letters g rest).map (s.key :: ·)
    | none => .error (.noSuchOption name [])

/-- Tells switches from arguments.  Two dashes end the switches, and so does the first argument unless the two may
be mixed. -/
def scan (g : Grammar) : List String → Except UsageError Scan
  | [] => .ok ⟨[], []⟩
  | a :: rest =>
    if a = "--" then .ok ⟨[], rest⟩
    else
      match a.toList with
      | '-' :: '-' :: _ =>
        let (name, attached) := splitValue a
        match g.find? name with
        | none => .error (.noSuchOption name (Text.closest name g.longNames))
        | some s =>
          match s.value, attached, rest with
          | none, none, rest => (scan g rest).map (.give s.key "")
          | none, some _, _ => .error (.takesNoValue name)
          | some _, some v, rest => (scan g rest).map (.give s.key v)
          | some _, none, v :: others => (scan g others).map (.give s.key v)
          | some _, none, [] => .error (.needsValue name)
      | '-' :: c :: cs =>
        match g.letters (c :: cs) with
        | .error e => .error e
        | .ok keys => (scan g rest).map fun s => keys.foldr (fun k s => s.give k "") s
      | _ => if g.mixed then (scan g rest).map (.argue a) else .ok ⟨[], a :: rest⟩
termination_by args => args.length
decreasing_by all_goals (simp_all; try omega)

/-- The line that shows how a command is used. -/
def usage (g : Grammar) : String := " ".intercalate (["Usage:", g.command, "[OPTIONS]"] ++ g.arguments)

/-- A row: a first column as wide as given, and lines in the second. -/
def rowText (width : Nat) (first : String) (second : List String) : String :=
  "  " ++ Text.padRight width first ++ ("\n" ++ Text.times (width + 2) " ").intercalate second ++ "\n"

/-- Rows below each other. -/
def tableText (rows : List (String × List String)) : String :=
  let width := (rows.map fun r => r.1.length).foldl max 0 + 2
  String.join (rows.map fun r => rowText width r.1 r.2)

def paragraphText (lines : List String) : String := "\n" ++ String.join (lines.map fun l => "  " ++ l ++ "\n")

/-- The description of a command. -/
def helpPage (g : Grammar) : String :=
  g.usage ++ "\n" ++ String.join (g.about.map paragraphText) ++
    "\nOptions:\n" ++ tableText (g.allSwitches.map fun s => (s.signature, s.help)) ++
    (if g.commands.isEmpty then "" else "\nCommands:\n" ++ tableText (g.commands.map fun c => (c.1, [c.2])))

/-- An error as it is shown. -/
def errorText (g : Grammar) (e : UsageError) : String :=
  (if e.showsUsage then g.usage ++ "\nTry '" ++ g.command ++ " --help' for help.\n\n" else "") ++
    "Error: " ++ e.message ++ "\n"

end Grammar

end ServerTrial.CommandLine
