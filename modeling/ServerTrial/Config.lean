import ServerTrial.World.Tree
import ServerTrial.Toml.Document
import ServerTrial.Toml.Writer
import ServerTrial.Number.Reader

/-!
# Configuration

Settings that hold for all cases: the editor and how often to look after it, the timeout and the cleanup of new
cases, formatting options, the level of the log.  A file may override the defaults, table by table.
-/

namespace ServerTrial

namespace Config

/-- The variable that names the editor and wins over the file. -/
def editorVariable : String := "LSPRESSO_NVIM"

/-- The settings that hold where a file gives none. -/
def defaults : List (String × Data) :=
  [("editor", .obj [("command", .str "nvim"), ("poll_interval", .float 0.05)]),
    ("defaults", .obj [("timeout", .float 1.0), ("cleanup", .bool false)]),
    ("formatting", .obj [("tab_size", .int 4), ("insert_spaces", .bool true)]),
    ("log", .obj [("level", .str "warning")])]

/-- Puts the entries of `override` over those of `base`; where both have a table the tables are merged. -/
def merge : List (String × Data) → List (String × Data) → List (String × Data)
  | [], base => base
  | (k, .obj inner) :: rest, base =>
    match Data.find? k base with
    | some (.obj old) => merge rest (Data.put k (.obj (merge inner old)) base)
    | _ => merge rest (Data.put k (.obj inner) base)
  | (k, v) :: rest, base => merge rest (Data.put k v base)

/-- The value under a key that has to be there. -/
def part (d : Data) (key : String) : Except Fault Data :=
  match d with
  | .obj entries =>
    match Data.find? key entries with
    | some v => .ok v
    | none => .error .key
  | _ => .error .kind

/-- A setting of a section. -/
def setting (config : List (String × Data)) (sectionName key : String) : Except Fault Data :=
  (part (.obj config) sectionName).bind fun s => part s key

end Config

namespace World

/-- The home directory. -/
def home (w : World) : Path :=
  match w.environment? "HOME" with
  | some h => if h.isEmpty then ⟨.slash, []⟩ else Path.ofString h
  | none => ⟨.slash, ["root"]⟩

/-- Where the configuration stands. -/
def configPath (w : World) : Path :=
  let base :=
    match w.environment? "XDG_CONFIG_HOME" with
    | some d => if d.isEmpty then w.home.child ".config" else Path.ofString d
    | none => w.home.child ".config"
  (base.child "lspresso-shot").child "config.toml"

/-- The settings in force. -/
def config (w : World) : Except Fault (List (String × Data)) := do
  let p := w.configPath
  if !(← (w.present p).mapError Fault.system) then return Config.defaults
  let bytes ← (w.fetch p).mapError Fault.system
  let text ← (Utf8.decode (byteValues bytes)).mapError fun f => Fault.value f.message
  match Data.ofToml text with
  | .ok entries => return Config.merge entries Config.defaults
  | .error e => throw (.ofToml e)

/-- A setting in force. -/
def setting (w : World) (sectionName key : String) : Except Fault Data :=
  w.config.bind fun c => Config.setting c sectionName key

/-- The editor for new cases; of the environment, the given settings and those in force the first decides. -/
def editorCommand (w : World) (given : Option (List (String × Data))) : Except Fault Data :=
  match w.environment? Config.editorVariable with
  | some e =>
    if e.isEmpty then fromSettings else .ok (.str e)
  | none => fromSettings
where
  fromSettings : Except Fault Data :=
    match given with
    | some c => Config.setting c "editor" "command"
    | none => w.setting "editor" "command"

/-- The timeout of new cases. -/
def defaultTimeout (w : World) : Except Fault Float := (w.setting "defaults" "timeout").bind Data.toReal

/-- The cleanup of new cases. -/
def defaultCleanup (w : World) : Except Fault Bool := (w.setting "defaults" "cleanup").map Data.truthy

/-- How long to wait before looking after the editor again. -/
def pollInterval (w : World) : Except Fault Float := (w.setting "editor" "poll_interval").bind Data.toReal

/-- The options for formatting where a case gives none. -/
def formattingOptions (w : World) : Except Fault Value := do
  let tabSize ← w.setting "formatting" "tab_size"
  let insertSpaces ← w.setting "formatting" "insert_spaces"
  let data := Data.obj [("tab_size", tabSize), ("insert_spaces", insertSpaces)]
  match check data (.model .formattingOptions) with
  | .ok m => return m.value
  | .error refusals => throw (.invalid data refusals)

/-- Writes the configuration file.  A table that TOML cannot hold leaves the file empty. -/
def saveConfig (w : World) (config : List (String × Data)) : Except Fault Unit × World :=
  match w.ensureDirectory w.configPath.parent with
  | (.error e, w) => (.error (.system e), w)
  | (.ok _, w) =>
    match Data.toToml config with
    | some text => w.storeText w.configPath text
    | none =>
      match w.store w.configPath [] with
      | .ok w => (.error .kind, w)
      | .error e => (.error (.system e), w)

end World

end ServerTrial
