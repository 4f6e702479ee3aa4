import ServerTrial.Lua.Literal
import ServerTrial.Protocol.Geometry
import ServerTrial.Protocol.Value
import ServerTrial.Failure

/-!
# Injections

What a request sends along is described by injections.  `Injection.compile` turns them into statements that fill
the table of parameters while the script runs; every assignment stands behind a guard that the field is still
unset, so that two injections cannot write one field.
-/

namespace ServerTrial

/-- A plain replacement in the script. -/
structure Substitution where
  placeholder : String
  replacement : String
  deriving DecidableEq, Repr, Inhabited

/-- A contribution to the parameters of a request. -/
inductive Injection where
  /-- The identifier of the open document. -/
  | textDocument (name : String)
  | position (p : Position) (name : String)
  | range (r : Range) (name : String)
  /-- A JSON text, read while the script runs. -/
  | json (name text : String)
  /-- A JSON text of which some fields are taken over one by one. -/
  | spread (name : String) (fields : List String) (text : String)
  /-- A table of its own. -/
  | nested (name : String) (fields : List Injection)
  | raw (s : Substitution)
  /-- What cannot be compiled: its text in reports and why not. -/
  | unfit (shown : String) (reason : Fault)
  deriving Inhabited

namespace Lua

/-- What a statement assigns. -/
inductive Expr where
  | documentParams
  | position (p : Position)
  | range (r : Range)
  | decoded (json : String)
  | name (n : String)
  | fieldOf (n key : String)
  | emptyTable
  deriving DecidableEq, Repr, Inhabited

/-- The statements of the block that fills the parameters. -/
inductive Statement where
  /-- Stops unless the field is unset. -/
  | guard (table key : String)
  | assign (table key : String) (value : Expr)
  | declare (name : String) (value : Expr)
  deriving DecidableEq, Repr, Inhabited

namespace Expr

def positionText (p : Position) : String :=
  "\x7b line = " ++ toString p.line ++ ", character = " ++ toString p.character ++ " \x7d"

def text : Expr → String
  | documentParams => "vim.lsp.util.make_text_document_params(0)"
  | position p => positionText p
  | range r => "\x7b start = " ++ positionText r.start ++ ", ['end'] = " ++ positionText r.stop ++ " \x7d"
  | decoded json => "vim.json.decode(" ++ longString json ++ ")"
  | name n => n
  | fieldOf n key => n ++ "[" ++ quoted key ++ "]"
  | emptyTable => "\x7b\x7d"

end Expr

namespace Statement

def text : Statement → String
  | guard table key =>
    "assert(" ++ table ++ "[" ++ quoted key ++ "] == nil, " ++ quoted (table ++ "." ++ key ++ " is already set") ++ ")"
  | assign table key value => table ++ "[" ++ quoted key ++ "] = " ++ value.text
  | declare name value => "local " ++ name ++ " = " ++ value.text

end Statement

/-- The table that the statements fill. -/
def paramsTable : String := "params"

/-- Statements as they stand in the script, a line each unless a text in them has more. -/
def blockText (statements : List Statement) : String :=
  "\n".intercalate (statements.map fun s => "    " ++ s.text)

end Lua

namespace Injection

open Lua (Expr Statement)

/-- What compiling yields: statements, replacements, and the number for the next local name. -/
structure Compiled where
  statements : List Statement
  substitutions : List Substitution
  next : Nat
  deriving Inhabited

/-- A name that is used once. -/
def localName (stem : String) (n : Nat) : String := stem ++ "_" ++ toString n

/-- Assigns a field that must be unset; its name needs bytes. -/
def guarded (table key : String) (value : Expr) : Except Fault (List Statement) :=
  if Text.isWhole key then .ok [.guard table key, .assign table key value] else .error .unencodable

mutual

/-- Compiles an injection into a table; `n` numbers the next local name. -/
def compile (table : String) (n : Nat) : Injection → Except Fault Compiled
  | textDocument name => (guarded table name .documentParams).map fun s => ⟨s, [], n⟩
  | position p name => (guarded table name (.position p)).map fun s => ⟨s, [], n⟩
  | range r name => (guarded table name (.range r)).map fun s => ⟨s, [], n⟩
  | json name text =>
    let own := localName "json" n
    (guarded table name (.name own)).map fun s => ⟨.declare own (.decoded text) :: s, [], n + 1⟩
  | spread name fields text =>
    let own := localName (Lua.identifier name) n
    (fields.mapM fun f => guarded table f (.fieldOf own f)).map fun s =>
      ⟨.declare own (.decoded text) :: s.flatten, [], n + 1⟩
  | nested name fields =>
    let own := localName (Lua.identifier name) n
    match compileAll own (n + 1) fields with
    | .error e => .error e
    | .ok c =>
      (guarded table name (.name own)).map fun s =>
        ⟨.declare own .emptyTable :: (c.statements ++ s), c.substitutions, c.next⟩
  | raw s => .ok ⟨[], [s], n⟩
  | unfit _ reason => .error reason

/-- Compiles injections into a table one after the other. -/
def compileAll (table : String) (n : Nat) : List Injection → Except Fault Compiled
  | [] => .ok ⟨[], [], n⟩
  | i :: rest =>
    match compile table n i with
    | .error e => .error e
    | .ok c =>
      match compileAll table c.next rest with
      | .error e => .error e
      | .ok d => .ok ⟨c.statements ++ d.statements, c.substitutions ++ d.substitutions, d.next⟩

end

/-- The statements that fill the parameters, and the replacements. -/
def assemble (injections : List Injection) : Except Fault Compiled := compileAll Lua.paramsTable 1 injections

mutual

/-- The text of an injection in reports. -/
def inspect : Injection → String
  | textDocument name => "TextDocumentParam(name=" ++ Text.quote name ++ ")"
  | position p name => "PositionParam(position=" ++ p.toValue.inspect ++ ", name=" ++ Text.quote name ++ ")"
  | range r name => "RangeParam(range=" ++ r.toValue.inspect ++ ", name=" ++ Text.quote name ++ ")"
  | json name text => "DirectJson(name=" ++ Text.quote name ++ ", json=" ++ Text.quote text ++ ")"
  | spread name fields text =>
    "DestructureJson(name=" ++ Text.quote name ++ ", fields=" ++ tupleText (fields.map Text.quote) ++ ", json=" ++
      Text.quote text ++ ")"
  | nested name fields =>
    "Nested(name=" ++ Text.quote name ++ ", fields=" ++ tupleText (inspectAll fields) ++ ")"
  | raw s =>
    "RawSubstitution(placeholder=" ++ Text.quote s.placeholder ++ ", replacement=" ++ Text.quote s.replacement ++ ")"
  | unfit shown _ => shown

def inspectAll : List Injection → List String
  | [] => []
  | i :: rest => inspect i :: inspectAll rest

end

end Injection

end ServerTrial
