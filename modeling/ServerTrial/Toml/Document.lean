import ServerTrial.Toml.Scalars

/-!
# TOML documents

`Data.ofToml` reads a document into an object.  A table may be opened once; a table that a dotted key has made, an
array and an inline table cannot be opened or extended from outside; no value is written over.
-/

namespace ServerTrial

namespace Toml

/-- What an array adds to the depth of what is in it. -/
def arrayDepth : Nat := 2

/-- What an inline table adds to the depth of what is in it. -/
def tableDepth : Nat := 3

/-- The entries of a table. -/
abbrev Entries := List (String × Data)

/-- What is known of the tables: those that may not be opened again, and those that may not change at all. -/
structure Marks where
  opened : List (List String)
  frozen : List (List String)

namespace Marks

def none : Marks := ⟨[], []⟩

def isOpened (m : Marks) (key : List String) : Bool := m.opened.contains key

/-- Frozen keys freeze all below them. -/
def isFrozen (m : Marks) (key : List String) : Bool := m.frozen.any fun k => k.isPrefixOf key

def addOpened (m : Marks) (key : List String) : Marks := { m with opened := key :: m.opened }

def addFrozen (m : Marks) (key : List String) : Marks := { m with frozen := key :: m.frozen }

/-- Forgets a key and all below it. -/
def forget (m : Marks) (key : List String) : Marks :=
  ⟨m.opened.filter fun k => !key.isPrefixOf k, m.frozen.filter fun k => !key.isPrefixOf k⟩

end Marks

/-- Changes the table at the end of a key, making tables on the way.  An array of tables stands for its last one
when `throughArrays` is set. -/
def changeAt (throughArrays : Bool) (f : Entries → Option Entries) : List String → Entries → Option Entries
  | [], entries => f entries
  | k :: ks, entries =>
    match Data.find? k entries with
    | none => (changeAt throughArrays f ks []).map fun inner => Data.put k (.obj inner) entries
    | some (.obj inner) => (changeAt throughArrays f ks inner).map fun inner => Data.put k (.obj inner) entries
    | some (.arr items) =>
      if throughArrays then
        match items.getLast? with
        | some (.obj inner) =>
          (changeAt throughArrays f ks inner).map fun inner =>
            Data.put k (.arr (items.dropLast ++ [.obj inner])) entries
        | _ => none
      else none
    | some _ => none

/-- Adds an entry; none if the key is taken. -/
def addNew (key : String) (value : Data) (entries : Entries) : Option Entries :=
  if (Data.find? key entries).isSome then none else some (entries ++ [(key, value)])

/-- Adds a table to an array of tables. -/
def addTable (key : String) (entries : Entries) : Option Entries :=
  match Data.find? key entries with
  | none => some (entries ++ [(key, .arr [.obj []])])
  | some (.arr items) => some (Data.put key (.arr (items ++ [.obj []])) entries)
  | some _ => none

def isContainer : Data → Bool
  | .arr _ => true
  | .obj _ => true
  | _ => false

/-- Skips blanks, line ends and comments, from inside a comment or from outside. -/
def skipLines : Bool → List Char → Except Error (List Char)
  | _, [] => .ok []
  | true, c :: cs => if c = '\n' then skipLines false cs else if isControl c then .error .syntactic else skipLines true cs
  | false, c :: cs =>
    if isSpaceOrLine c then skipLines false cs else if c = '#' then skipLines true cs else .ok (c :: cs)

def skipAll (cs : List Char) : Except Error (List Char) := skipLines false cs

/-- A word, a text, a date, a time or a number. -/
def scalar (cs : List Char) : Parse Data :=
  match cs with
  | '"' :: _ | '\'' :: _ => .ofRead ((string cs).map fun r => (.str (String.ofList r.1), r.2))
  | 't' :: 'r' :: 'u' :: 'e' :: rest => .ok (.bool true, rest)
  | 'f' :: 'a' :: 'l' :: 's' :: 'e' :: rest => .ok (.bool false, rest)
  | _ =>
    match moment cs with
    | some r => .ofRead r
    | none => number cs

/-- Adds an entry to an inline table. -/
def addInline (k : List String) (x : Data) (entries : Entries) (marks : Marks) : Except Error Entries :=
  if marks.isFrozen k then .error .syntactic
  else
    match changeAt false (addNew (k.getLastD "") x) k.dropLast entries with
    | some entries => .ok entries
    | none => .error .syntactic

mutual

/-- A value at a depth.  A character takes two units of fuel at most: a bracket leads to a value by way of its items. -/
def value : Nat → Nat → List Char → Except Error (Data × List Char)
  | 0, _, _ => .error .syntactic
  | fuel + 1, depth, cs =>
    match cs with
    | '[' :: rest =>
      if depth + arrayDepth > nestingLimit then .error .nesting
      else do
        match ← skipAll rest with
        | ']' :: rest => return (.arr [], rest)
        | rest =>
          let (xs, rest) ← items fuel (depth + arrayDepth) rest
          return (.arr xs, rest)
    | '{' :: rest =>
      if depth + tableDepth > nestingLimit then .error .nesting
      else do
        match ← skipAll rest with
        | '}' :: rest => return (.obj [], rest)
        | rest =>
          let (entries, rest) ← inlineEntries fuel (depth + tableDepth) [] Marks.none rest
          return (.obj entries, rest)
    | cs => scalar cs

/-- The items of an array up to the closing bracket; a comma may stand before it. -/
def items : Nat → Nat → List Char → Except Error (List Data × List Char)
  | 0, _, _ => .error .syntactic
  | fuel + 1, depth, cs => do
    let (x, rest) ← value fuel depth cs
    match ← skipAll rest with
    | ']' :: rest => return ([x], rest)
    | ',' :: rest =>
      match ← skipAll rest with
      | ']' :: rest => return ([x], rest)
      | rest =>
        let (xs, rest) ← items fuel depth rest
        return (x :: xs, rest)
    | _ => .error .syntactic

/-- The entries of an inline table up to the closing brace; a comma may stand before it. -/
def inlineEntries : Nat → Nat → Entries → Marks → List Char → Except Error (Entries × List Char)
  | 0, _, _, _, _ => .error .syntactic
  | fuel + 1, depth, entries, marks, cs => do
    let ((k, x), rest) ← entry fuel depth cs
    let entries ← addInline k x entries marks
    match ← skipAll rest with
    | '}' :: rest => return (entries, rest)
    | ',' :: rest =>
      match ← skipAll rest with
      | '}' :: rest => return (entries, rest)
      | rest => inlineEntries fuel depth entries (if isContainer x then marks.addFrozen k else marks) rest
    | _ => .error .syntactic

/-- A key, an equals sign and a value. -/
def entry : Nat → Nat → List Char → Except Error ((List String × Data) × List Char)
  | 0, _, _ => .error .syntactic
  | fuel + 1, depth, cs =>
    match key cs with
    | some (k, '=' :: rest) => do
      let (x, rest) ← value fuel depth (skipSpace rest)
      return ((k, x), rest)
    | _ => .error .syntactic

end

/-- A document while it is read: its entries, the open table, what is marked, and the tables that dotted keys have
made and that are closed for good when another table is opened. -/
structure Draft where
  entries : Entries
  table : List String
  marks : Marks
  pending : List (List String)

namespace Draft

def empty : Draft := ⟨[], [], Marks.none, []⟩

/-- Marks the tables that dotted keys have made. -/
def settle (d : Draft) : Draft := { d with marks := d.pending.foldl Marks.addOpened d.marks, pending := [] }

/-- The keys of the tables that a dotted key passes through, below `table`. -/
def passed (table : List String) : List String → List (List String)
  | [] => []
  | [_] => []
  | k :: ks => (table ++ [k]) :: passed (table ++ [k]) ks

/-- Adds an entry to the open table. -/
def add (d : Draft) (k : List String) (x : Data) : Option Draft :=
  let through := passed d.table k
  let parent := d.table ++ k.dropLast
  if through.any d.marks.isOpened then none
  else if d.marks.isFrozen parent then none
  else
    match changeAt true (addNew (k.getLastD "") x) parent d.entries with
    | none => none
    | some entries =>
      some
        { d with
          entries
          marks := if isContainer x then d.marks.addFrozen (d.table ++ k) else d.marks
          pending := d.pending ++ through }

/-- Opens a table. -/
def openTable (d : Draft) (k : List String) : Option Draft :=
  let d := d.settle
  if d.marks.isOpened k || d.marks.isFrozen k then none
  else
    (changeAt true some k d.entries).map fun entries =>
      { d with entries, table := k, marks := d.marks.addOpened k }

/-- Opens a new table of an array of tables. -/
def openItem (d : Draft) (k : List String) : Option Draft :=
  let d := d.settle
  if d.marks.isFrozen k then none
  else
    (changeAt true (addTable (k.getLastD "")) k.dropLast d.entries).map fun entries =>
      { d with entries, table := k, marks := (d.marks.forget k).addOpened k }

end Draft

/-- A draft with the rest of the text, if there is one. -/
def Draft.before (rest : List Char) : Option Draft → Parse Draft
  | some d => .ok (d, rest)
  | none => .error .syntactic

/-- One statement. -/
def statement (d : Draft) (cs : List Char) : Except Error (Draft × List Char) :=
  match cs with
  | '[' :: '[' :: rest =>
    match key (skipSpace rest) with
    | some (k, ']' :: ']' :: rest) => Draft.before rest (d.openItem k)
    | _ => .error .syntactic
  | '[' :: rest =>
    match key (skipSpace rest) with
    | some (k, ']' :: rest) => Draft.before rest (d.openTable k)
    | _ => .error .syntactic
  | '#' :: _ => .ok (d, cs)
  | _ => do
    let ((k, x), rest) ← entry (2 * cs.length + 2) 0 cs
    Draft.before rest (d.add k x)

/-- The statements of a document, at most `fuel` lines of them. -/
def statements : Nat → Draft → List Char → Except Error Draft
  | 0, _, _ => .error .syntactic
  | fuel + 1, d, cs =>
    match skipSpace cs with
    | [] => .ok d
    | '\n' :: rest => statements fuel d rest
    | cs =>
      match statement d cs with
      | .error e => .error e
      | .ok (d, rest) =>
        match comment (skipSpace rest) with
        | some [] => .ok d
        | some ('\n' :: rest) => statements fuel d rest
        | _ => .error .syntactic

/-- Line ends of two characters become single line feeds. -/
def unixLines : List Char → List Char
  | '\r' :: '\n' :: rest => '\n' :: unixLines rest
  | c :: rest => c :: unixLines rest
  | [] => []

end Toml

/-- The entries of a TOML document. -/
def Data.ofToml (text : String) : Except Toml.Error (List (String × Data)) :=
  let cs := Toml.unixLines text.toList
  (Toml.statements (cs.length + 1) Toml.Draft.empty cs).map Toml.Draft.entries

theorem Data.ofToml_ofList (cs : List Char) : Data.ofToml (String.ofList cs) =
    (Toml.statements ((Toml.unixLines cs).length + 1) Toml.Draft.empty (Toml.unixLines cs)).map Toml.Draft.entries := by
  rw [Data.ofToml, String.toList_ofList]

end ServerTrial
