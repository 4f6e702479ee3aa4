import ServerTrial.Proofs.LuaReader

/-!
# Running statements

What a block of statements does.  Tables are held by reference: a variable or a field holds the number of a table,
and assigning to a field changes the table with that number (`Memory.set`).  What a JSON text is read as is a
parameter, since the editor's reader is not part of this development; null is a value like any other there, and not
the value that an unset field has.  Nothing limits how many variables there are.  A run ends early when an assertion
fails or something is asked of a value that does not have it (`run`).

`Holds` says what a value comes to when the tables it refers to are followed.
-/

namespace ServerTrial

/-- A position as the table that is written for it. -/
def Position.toTable (p : Position) : Data := .obj [("line", .int p.line), ("character", .int p.character)]

def Range.toTable (r : Range) : Data := .obj [("start", r.start.toTable), ("end", r.stop.toTable)]

namespace Lua

/-- What a variable or a field holds.  Tables that nothing is assigned to, those of messages and literals, are held as
data. -/
inductive Val where
  /-- What an unset field holds. -/
  | nil
  /-- The identifier of the open document. -/
  | document
  | data (d : Data)
  | table (ref : Nat)

/-- The local variables, the last one declared first, and the tables. -/
structure Memory where
  locals : List (String × Val)
  tables : List (List (String × Val))

namespace Memory

variable (m : Memory)

def lookup (n : String) : Val := (Data.find? n m.locals).getD .nil

/-- The field of a value. -/
def get : Val → String → Option Val
  | .table r, key => m.tables[r]?.map fun held => (Data.find? key held).getD .nil
  | .data (.obj es), key => some (((Data.find? key es).map .data).getD .nil)
  | _, _ => none

/-- Sets a field; setting it to nothing takes it away. -/
def set : Val → String → Val → Option Memory
  | .table r, key, v => m.tables[r]?.map fun held =>
    { m with tables := m.tables.set r <|
        match v with
        | .nil => held.filter fun e => e.1 ≠ key
        | v => Data.put key v held }
  | _, _, _ => none

def declare (n : String) (v : Val) : Memory := { m with locals := (n, v) :: m.locals }

theorem lookup_declare (n : String) (v : Val) : (m.declare n v).lookup n = v := by
  rw [declare, lookup, Data.find?, if_pos rfl, Option.getD_some]

theorem lookup_declare_of_ne {n x : String} (differ : n ≠ x) (v : Val) : (m.declare n v).lookup x = m.lookup x := by
  rw [declare, lookup, Data.find?, if_neg differ, lookup]

/-- One table, empty, under the name that statements fill. -/
def start : Memory := ⟨[(paramsTable, .table 0)], [[]]⟩

end Memory

section Run

variable (decode : String → Option Data)

/-- The value of an expression. -/
def eval (m : Memory) : Expr → Option (Val × Memory)
  | .documentParams => some (.document, m)
  | .position p => some (.data p.toTable, m)
  | .range r => some (.data r.toTable, m)
  | .decoded json => (decode json).map fun d => (.data d, m)
  | .name n => some (m.lookup n, m)
  | .fieldOf n key => (m.get (m.lookup n) key).map fun v => (v, m)
  | .emptyTable => some (.table m.tables.length, { m with tables := m.tables ++ [[]] })

def exec (m : Memory) : Statement → Option Memory
  | .guard table key =>
    match m.get (m.lookup table) key with
    | some .nil => some m
    | _ => none
  | .assign table key value => (eval decode m value).bind fun (v, m) => m.set (m.lookup table) key v
  | .declare n value => (eval decode m value).map fun (v, m) => m.declare n v

/-- Runs statements one after the other. -/
def run : List Statement → Memory → Option Memory
  | [], m => some m
  | s :: ss, m => (exec decode m s).bind (run ss)

/-- What becomes of the text of a block. -/
inductive Outcome where
  /-- The text is not of the language. -/
  | unreadable
  | aborted
  | ended (m : Memory)

/-- Reads the text of a block and runs it. -/
def execute (text : String) : Outcome :=
  match Reader.read text with
  | none => .unreadable
  | some ss =>
    match run decode ss .start with
    | none => .aborted
    | some m => .ended m

variable {decode} in
theorem execute_eq_ended {text : String} {ss : List Statement} (reads : Reader.read text = some ss) {m : Memory}
    (ends : run decode ss .start = some m) : execute decode text = .ended m := by
  simp only [execute, reads, ends]

theorem run_append (ss ts : List Statement) (m : Memory) :
    run decode (ss ++ ts) m = (run decode ss m).bind (run decode ts) := by
  induction ss generalizing m with
  | nil => rfl
  | cons s ss ih =>
    rw [List.cons_append, run, run, Option.bind_assoc]
    exact congrArg _ (funext ih)

end Run

/-! ### What values come to -/

/-- A value with the tables in it. -/
inductive Tree where
  | document
  | data (d : Data)
  | table (entries : List (String × Tree))

mutual

/-- The value comes to the tree.  A table in it has a number from `low` on, and the tables in that one have higher
numbers. -/
inductive Holds (tables : List (List (String × Val))) : Nat → Val → Tree → Prop where
  | document (low : Nat) : Holds tables low .document .document
  | data (low : Nat) (d : Data) : Holds tables low (.data d) (.data d)
  | table {low r : Nat} {held : List (String × Val)} {entries : List (String × Tree)} (above : low ≤ r)
      (stored : tables[r]? = some held) (each : HoldsAll tables (r + 1) held entries) :
      Holds tables low (.table r) (.table entries)

/-- The fields are those of the entries, in their order, and come to them. -/
inductive HoldsAll (tables : List (List (String × Val))) :
    Nat → List (String × Val) → List (String × Tree) → Prop where
  | nil (low : Nat) : HoldsAll tables low [] []
  | cons {low : Nat} {key : String} {v : Val} {t : Tree} {held : List (String × Val)} {entries : List (String × Tree)}
      (first : Holds tables low v t) (rest : HoldsAll tables low held entries) :
      HoldsAll tables low ((key, v) :: held) ((key, t) :: entries)

end

section Holds

variable {tables tables' : List (List (String × Val))} {low : Nat}

mutual

/-- Tables that a value does not refer to may change. -/
theorem Holds.mono {low low' : Nat} (below : low' ≤ low)
    (kept : ∀ r held, low ≤ r → tables[r]? = some held → tables'[r]? = some held) {v : Val} {t : Tree} :
    Holds tables low v t → Holds tables' low' v t
  | .document _ => .document _
  | .data _ d => .data _ d
  | .table above stored each =>
    .table (below.trans above) (kept _ _ above stored)
      (each.mono (Nat.le_refl _) fun q held hq => kept q held (by omega))

theorem HoldsAll.mono {low low' : Nat} (below : low' ≤ low)
    (kept : ∀ r held, low ≤ r → tables[r]? = some held → tables'[r]? = some held) {held : List (String × Val)}
    {entries : List (String × Tree)} : HoldsAll tables low held entries → HoldsAll tables' low' held entries
  | .nil _ => .nil _
  | .cons first rest => .cons (first.mono below kept) (rest.mono below kept)

end

theorem HoldsAll.append {held more : List (String × Val)} {entries others : List (String × Tree)}
    (front : HoldsAll tables low held entries) (back : HoldsAll tables low more others) :
    HoldsAll tables low (held ++ more) (entries ++ others) := by
  induction held generalizing entries with
  | nil =>
    cases front
    exact back
  | cons e held ih =>
    cases front with
    | cons first rest => exact .cons first (ih rest)

theorem Holds.ne_nil {v : Val} {t : Tree} (h : Holds tables low v t) : v ≠ .nil := by
  rintro rfl
  cases h

theorem HoldsAll.keys {held : List (String × Val)} {entries : List (String × Tree)}
    (each : HoldsAll tables low held entries) : held.map Prod.fst = entries.map Prod.fst := by
  induction held generalizing entries with
  | nil =>
    cases each
    rfl
  | cons e held ih =>
    cases each with
    | cons first rest => rw [List.map_cons, List.map_cons, ih rest]

/-- A field of a table is unset unless there is an entry for it. -/
theorem HoldsAll.field_eq_nil {held : List (String × Val)} {entries : List (String × Tree)}
    (each : HoldsAll tables low held entries) (key : String) :
    (Data.find? key held).getD .nil = .nil ↔ key ∉ entries.map Prod.fst := by
  induction held generalizing entries with
  | nil =>
    cases each
    exact iff_of_true rfl (List.not_mem_nil)
  | cons e held ih =>
    cases each with
    | @cons _ k _ _ _ entries first rest =>
      rw [Data.find?, List.map_cons, List.mem_cons]
      by_cases same : k = key
      · rw [if_pos same]
        exact iff_of_false first.ne_nil fun absent => absent (.inl same.symm)
      · rw [if_neg same, ih rest, not_or]
        exact ⟨fun absent => ⟨Ne.symm same, absent⟩, And.right⟩

end Holds

end Lua

end ServerTrial
