import ServerTrial.Lua.Template
import ServerTrial.Lua.Injection
import ServerTrial.Case.Basic
import ServerTrial.Number.Reader

/-!
# The editor script

`Case.script` fills the placeholders of a script one after the other: first what the editor does when the server
is attached, then the replacements that injections ask for, then those that every case has.  The block that fills
the parameters comes last, so that no placeholder is looked for in the JSON texts it holds.
-/

namespace ServerTrial

namespace Lua

/-- Replaces a pattern that is not empty; `skip` characters belong to an occurrence already replaced. -/
def replaceFrom (pattern replacement : List Char) : Nat → List Char → List Char
  | _, [] => []
  | skip + 1, _ :: cs => replaceFrom pattern replacement skip cs
  | 0, c :: cs =>
    if pattern.isPrefixOf (c :: cs) then replacement ++ replaceFrom pattern replacement (pattern.length - 1) cs
    else c :: replaceFrom pattern replacement 0 cs

/-- Replaces every occurrence of a pattern; the empty one occurs around every character. -/
def replaceAll (pattern replacement text : List Char) : List Char :=
  if pattern.isEmpty then replacement ++ text.flatMap (· :: replacement)
  else replaceFrom pattern replacement 0 text

/-- Replaces the placeholder everywhere. -/
def fill (text : List Char) (s : Substitution) : List Char :=
  replaceAll s.placeholder.toList s.replacement.toList text

/-- The indentation of what the editor does when the server is attached. -/
def attachIndent : String := Text.times 16 " "

/-- What the editor does when the server is attached: asks at once, or when progress has ended. -/
def onAttach : Startup → Except Fault String
  | .immediate => .ok ("check_progress_result()\n" ++ attachIndent ++ "vim.cmd('qa!')")
  | .progress _ token =>
    if Text.isWhole token then .ok (onProgressEnd token) else .error .unencodable
where
  onProgressEnd (token : String) : String :=
    ("\n" ++ attachIndent).intercalate
      ["vim.lsp.handlers['$/progress'] = function(_, result, _)",
        "    if client and result.value.kind == 'end' and result.token == " ++ quoted token ++ " then",
        "        client.initialized = true",
        "        check_progress_result()",
        "    end",
        "end"]

end Lua

namespace Case

/-- The timeout in milliseconds, at least one. -/
def milliseconds (c : Case) : Except Fault Int := (Data.truncated (c.timeout * 1000)).map (max 1)

/-- The replacements that every case has. -/
def substitutions (c : Case) (l : Layout) (method : String) : Except Failure (List Substitution) := do
  let extension ← c.fileExtension
  let timeout ← (c.milliseconds).mapError Failure.fault
  return [⟨"REQUEST_METHOD", method⟩,
    ⟨"RESULTS_FILE", Lua.inSingleQuotes (l.marker .results).toString⟩,
    ⟨"ERROR_PATH", Lua.inSingleQuotes (l.marker .error).toString⟩,
    ⟨"LOG_PATH", Lua.inSingleQuotes (l.marker .log).toString⟩,
    ⟨"EMPTY_PATH", Lua.inSingleQuotes (l.marker .empty).toString⟩,
    ⟨"TIMEOUT_PATH", Lua.inSingleQuotes (l.marker .timeout).toString⟩,
    ⟨"EXECUTABLE_PATH", Lua.inSingleQuotes c.server⟩,
    ⟨"ROOT_PATH", Lua.inSingleQuotes l.root.toString⟩,
    ⟨"PARENT_PATH", Lua.inSingleQuotes l.sources.toString⟩,
    ⟨"FILE_EXTENSION", extension⟩,
    ⟨"TIMEOUT_MS", toString timeout⟩,
    ⟨"PROGRESS_THRESHOLD", toString c.startup.threshold⟩,
    ⟨"COMMANDS", ""⟩]

/-- What is filled in for the attached server; nothing where diagnostics are collected. -/
def attachSubstitution (c : Case) (f : Fragment) : Except Fault Substitution :=
  (if f = .collect then .ok "" else Lua.onAttach c.startup).map fun action => ⟨"LSP_ACTION", action⟩

/-- The script by which the editor tries a request. -/
def script (c : Case) (l : Layout) (r : Request) (injections : List Injection) : Except Failure String := do
  let _ ← l.source c.source.path
  let compiled ← (Injection.assemble injections).mapError Failure.fault
  let attach ← (c.attachSubstitution r.fragment).mapError Failure.fault
  let standard ← c.substitutions l r.method
  let filled := (attach :: compiled.substitutions ++ standard).foldl Lua.fill
    (Lua.Template.whole r.fragment).toList
  return String.ofList (Lua.fill filled ⟨"PARAM_ASSIGN", Lua.blockText compiled.statements⟩)

end Case

end ServerTrial
