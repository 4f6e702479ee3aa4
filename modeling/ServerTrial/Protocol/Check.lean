import ServerTrial.Protocol.Models
import ServerTrial.Protocol.Scalar

/-!
# Checking data against shapes

`check` turns data into a value of a shape, or says at which places the data are refused.  A place is a list of
steps: keys, indices, and the labels of union branches, which are no part of the data.  All refusals are listed,
those of every branch when all branches of a union fail.

Of the branches that succeed the one with more given fields wins, all levels counted; then the one that changed
less; then the first (`Match.beats`).
-/

namespace ServerTrial

/-- A step of a place. -/
inductive Step where
  | key (k : String)
  | index (i : Int)
  deriving DecidableEq, Repr, Inhabited

/-- Data refused at a place. -/
structure Refusal where
  place : List Step
  data : Data
  deriving Inhabited

/-- How far a value is from its data: made from them, taken by a shape that takes anything, or the data
themselves. -/
inductive Exactness where
  | made | free | exact
  deriving DecidableEq, Repr, Inhabited

namespace Exactness

def rank : Exactness → Nat
  | made => 0
  | free => 1
  | exact => 2

/-- The lower of two. -/
def min (a b : Exactness) : Exactness := if a.rank ≤ b.rank then a else b

end Exactness

/-- A value with the number of fields given for it, if it holds a record at all. -/
structure Match where
  value : Value
  given : Option Nat
  exactness : Exactness
  deriving Inhabited

namespace Match

/-- Sum of two counts. -/
def addGiven : Option Nat → Option Nat → Option Nat
  | none, b => b
  | a, none => a
  | some a, some b => some (a + b)

/-- Does a later branch replace an earlier one? -/
def beats (later earlier : Match) : Bool :=
  match earlier.given, later.given with
  | some a, some b => if a ≠ b then a < b else earlier.exactness.rank < later.exactness.rank
  | _, _ => earlier.exactness.rank < later.exactness.rank

/-- The best of the branches that succeeded, in their order. -/
def best (first : Match) (others : List Match) : Match :=
  others.foldl (fun a b => if b.beats a then b else a) first

end Match

/-- What checking yields. -/
abbrev Outcome := Except (List Refusal) Match

namespace Shape

/-- The name of a shape in places. -/
def label : Shape → String
  | .text => "str"
  | .whole => "int"
  | .real => "float"
  | .flag => "bool"
  | .any => "any"
  | .word w => "literal['" ++ w ++ "']"
  | .member e => e.name
  | .model m => m.name
  | .list item => "list[" ++ label item ++ "]"
  | .pair a b => "tuple[" ++ label a ++ ", " ++ label b ++ "]"
  | .table entry => "dict[str," ++ label entry ++ "]"
  | .optional inner => "nullable[" ++ label inner ++ "]"
  | .union branches => "union[" ++ ",".intercalate (labels branches) ++ "]"
where
  labels : List Shape → List String
    | [] => []
    | s :: rest => label s :: labels rest

end Shape

namespace Check

def exactly (v : Value) : Outcome := .ok ⟨v, none, .exact⟩

def made (v : Value) (asGiven : Bool) : Outcome := .ok ⟨v, none, if asGiven then .exact else .made⟩

def refuse (d : Data) : Outcome := .error [⟨[], d⟩]

/-- Puts a step in front of the places. -/
def under (s : Step) : Outcome → Outcome
  | .ok m => .ok m
  | .error rs => .error (rs.map fun r => { r with place := s :: r.place })

/-- The member of an enumeration that data stand for; numbers may come in other guises. -/
def member? (e : Enumeration) (d : Data) : Option (String × Data) :=
  if e.isNumbered then
    match Scalar.whole? d with
    | some (n, _) => e.members.find? fun p => p.2.same (.int n)
    | none => none
  else
    match d with
    | .str s => e.members.find? fun p => p.2.same (.str s)
    | _ => none

/-- The parts of a composite value, each waiting for its shape. -/
inductive Parts where
  | none
  | items (xs : List (Shape → Outcome))
  | entries (xs : List (String × (Shape → Outcome)))

/-- Values of several places with their joint count and exactness, or all refusals. -/
abbrev Gathered (α : Type) := Except (List Refusal) (List α × Option Nat × Exactness)

/-- Joins the outcome of a place, labelled for the list it goes into, with those behind it. -/
def join {α : Type} (f : Value → α) : Outcome → Gathered α → Gathered α
  | .ok m, .ok (vs, given, exactness) =>
    .ok (f m.value :: vs, Match.addGiven m.given given, m.exactness.min exactness)
  | .ok _, .error rs => .error rs
  | .error rs, .ok _ => .error rs
  | .error rs, .error ss => .error (rs ++ ss)

/-- Checks the items of a list from index `i` on. -/
def items (shape : Shape) : Nat → List (Shape → Outcome) → Gathered Value
  | _, [] => .ok ([], none, .exact)
  | i, x :: xs => join id (under (.index i) (x shape)) (items shape (i + 1) xs)

/-- Checks the entries of a table. -/
def entries (shape : Shape) : List (String × (Shape → Outcome)) → Gathered (String × Value)
  | [] => .ok ([], none, .exact)
  | (k, x) :: xs => join (k, ·) (under (.key k) (x shape)) (entries shape xs)

/-- Where a field is given: under its key, or else under its name. -/
def given? {α : Type} (l : Label) (xs : List (String × α)) : Option (String × α) :=
  match Data.find? l.key xs with
  | some x => some (l.key, x)
  | none => (Data.find? l.name xs).map (l.name, ·)

/-- Checks the fields of a record; `whole` is the data of the record. -/
def fields (whole : Data) (xs : List (String × (Shape → Outcome))) : List Field → Gathered (Label × Value)
  | [] => .ok ([], none, .exact)
  | f :: fs =>
    match given? f.label xs with
    | some (k, x) => join (f.label, ·) (under (.key k) (x f.shape)) (fields whole xs fs)
    | none =>
      match f.default with
      | some v => join (f.label, ·) (.ok ⟨v, none, .exact⟩) (fields whole xs fs)
      | none => join (f.label, ·) (.error [⟨[.key f.label.key], whole⟩]) (fields whole xs fs)

/-- Number of fields that are given. -/
def countGiven {α : Type} (xs : List (String × α)) (fs : List Field) : Nat :=
  (fs.filter fun f => (given? f.label xs).isSome).length

/-- The keys under which fields are given. -/
def usedKeys {α : Type} (xs : List (String × α)) (fs : List Field) : List String :=
  fs.filterMap fun f => (given? f.label xs).map Prod.fst

/-- The entries that an open model keeps. -/
def extras (m : Model) : Data → List (String × Data)
  | .obj xs => if m.isOpen then xs.filter fun e => !(usedKeys xs m.fields).contains e.1 else []
  | _ => []

/-- Makes a record. -/
def record (m : Model) (whole : Data) (xs : List (String × (Shape → Outcome))) : Outcome :=
  match fields whole xs m.fields with
  | .error rs => .error rs
  | .ok (vs, given, _) =>
    let own := countGiven xs m.fields + (extras m whole).length
    .ok ⟨.record m vs (extras m whole), Match.addGiven given (some own), .made⟩

/-- Turns gathered parts into a value. -/
def gather {α : Type} (f : List α → Value) : Gathered α → Outcome
  | .ok (vs, given, exactness) => .ok ⟨f vs, given, exactness⟩
  | .error rs => .error rs

/-- Makes a pair. -/
def pair (a b : Shape) (whole : Data) : List (Shape → Outcome) → Outcome
  | [] => .error [⟨[.index 0], whole⟩, ⟨[.index 1], whole⟩]
  | [x] => gather (fun _ => .null) (join id (under (.index 0) (x a)) (.error [⟨[.index 1], whole⟩]))
  | [x, y] =>
    match under (.index 0) (x a), under (.index 1) (y b) with
    | .ok m, .ok n => .ok ⟨.pair m.value n.value, Match.addGiven m.given n.given, .made⟩
    | .ok _, .error rs => .error rs
    | .error rs, .ok _ => .error rs
    | .error rs, .error ss => .error (rs ++ ss)
  | _ => refuse whole

mutual

/-- Checks data, whose parts wait to be checked, against a shape. -/
def node (d : Data) (parts : Parts) : Shape → Outcome
  | .text =>
    match d with
    | .str _ => exactly (.plain d)
    | _ => refuse d
  | .whole =>
    match Scalar.whole? d with
    | some (n, asGiven) => made (.plain (.int n)) asGiven
    | none => refuse d
  | .real =>
    match Scalar.real? d with
    | some (x, asGiven) => made (.plain (.float x)) asGiven
    | none => refuse d
  | .flag =>
    match Scalar.flag? d with
    | some (b, asGiven) => made (.plain (.bool b)) asGiven
    | none => refuse d
  | .any => .ok ⟨.free d, none, .free⟩
  | .word w =>
    match d with
    | .str s => if s = w then exactly (.plain d) else refuse d
    | _ => refuse d
  | .member e =>
    match member? e d with
    | some (name, data) => made (.member e name data) false
    | none => refuse d
  | .model m =>
    match parts with
    | .entries xs => record m d xs
    | _ => refuse d
  | .list item =>
    match parts with
    | .items xs => gather .list (items item 0 xs)
    | _ => refuse d
  | .pair a b =>
    match parts with
    | .items xs => pair a b d xs
    | _ => refuse d
  | .table entry =>
    match parts with
    | .entries xs => gather .table (entries entry xs)
    | _ => refuse d
  | .optional inner =>
    match d with
    | .null => exactly .null
    | _ => node d parts inner
  | .union shapes =>
    match branches d parts shapes with
    | .ok (m :: ms) => .ok (m.best ms)
    | .ok [] => refuse d
    | .error rs => .error rs

/-- The branches that succeed, or the refusals of all branches. -/
def branches (d : Data) (parts : Parts) : List Shape → Except (List Refusal) (List Match)
  | [] => .error []
  | s :: rest =>
    match under (.key s.label) (node d parts s), branches d parts rest with
    | .ok m, .ok ms => .ok (m :: ms)
    | .ok m, .error _ => .ok [m]
    | .error _, .ok ms => .ok ms
    | .error rs, .error ss => .error (rs ++ ss)

end

end Check

mutual

/-- Checks data against a shape. -/
def check : Data → Shape → Outcome
  | .arr xs => Check.node (.arr xs) (.items (checkItems xs))
  | .obj xs => Check.node (.obj xs) (.entries (checkEntries xs))
  | .null => Check.node .null .none
  | .bool b => Check.node (.bool b) .none
  | .int n => Check.node (.int n) .none
  | .float x => Check.node (.float x) .none
  | .str s => Check.node (.str s) .none
  | .moment m => Check.node (.moment m) .none

def checkItems : List Data → List (Shape → Outcome)
  | [] => []
  | x :: xs => check x :: checkItems xs

def checkEntries : List (String × Data) → List (String × (Shape → Outcome))
  | [] => []
  | (k, x) :: xs => (k, check x) :: checkEntries xs

end

end ServerTrial
