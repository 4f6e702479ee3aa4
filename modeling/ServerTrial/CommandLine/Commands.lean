import ServerTrial.CommandLine.Grammar

/-!
# Commands

The commands and their grammars.
-/

namespace ServerTrial.CommandLine

inductive Command where
  | run | script | new | kinds | config
  deriving DecidableEq, Repr, Inhabited

namespace Command

def all : List Command := [run, script, new, kinds, config]

def name : Command → String
  | run => "run"
  | script => "script"
  | new => "new"
  | kinds => "kinds"
  | config => "config"

def ofName? (name : String) : Option Command := all.find? fun c => c.name == name

/-- What a command does, in a sentence. -/
def summary : Command → String
  | run => "Run one or more case files."
  | script => "Print the Neovim init script a case file would run."
  | new => "Write a skeleton case file."
  | kinds => "List the supported request kinds."
  | config => "Print config file location and contents."

/-- The name of the program. -/
def program : String := "lspresso-shot"

def exitFirst : Switch := ⟨["-x", "--exitfirst"], none, ["Stop after the first failing case"]⟩

def kindSwitch : Switch := ⟨["--kind"], some "TEXT", ["Request kind, e.g. hover or type_definition  [required]"]⟩

def serverSwitch : Switch := ⟨["--server"], some "TEXT", ["Language server command or path  [required]"]⟩

def sourceSwitch : Switch :=
  ⟨["--source"], some "TEXT", ["Path of the source file inside the workspace  [default:", "main.txt]"]⟩

def force : Switch := ⟨["--force"], none, ["Overwrite an existing file"]⟩

def verbose : Switch := ⟨["-v", "--verbose"], none, ["Log debug output to stderr"]⟩

/-- What stands behind the name of a command. -/
def grammar (c : Command) : Grammar :=
  let command := program ++ " " ++ c.name
  match c with
  | run =>
    ⟨command, [exitFirst], ["CASE_FILES..."], true,
      [[c.summary],
        ["Prints `ok` or `FAIL` per case, followed by the failure report. Exits with",
          "status 1 if any case failed."]], []⟩
  | script => ⟨command, [], ["CASE_FILE"], true, [[c.summary]], []⟩
  | new => ⟨command, [kindSwitch, serverSwitch, sourceSwitch, force], ["PATH"], true, [[c.summary]], []⟩
  | kinds => ⟨command, [], [], true, [[c.summary]], []⟩
  | config => ⟨command, [], [], true, [[c.summary]], []⟩

/-- What stands behind the name of the program. -/
def programGrammar : Grammar :=
  ⟨program, [verbose], ["COMMAND", "[ARGS]..."], false,
    [["lspresso-shot runs language server test cases inside a headless Neovim."],
      ["A case file (TOML) names the request kind, the server command, the source",
        "files and the expected reply. `lspresso-shot new` writes a skeleton to start",
        "from, `lspresso-shot run` executes cases and prints a diff for every failure."],
      ["See `lspresso-shot COMMAND --help` for more documentation and command-specific",
        "options."]],
    all.map fun c => (c.name, c.summary)⟩

end Command

end ServerTrial.CommandLine
