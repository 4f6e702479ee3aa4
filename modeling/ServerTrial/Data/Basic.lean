import ServerTrial.Number.Binary

/-!
# Data

The values that JSON and TOML documents hold.  An object keeps its keys in the order in which they were first
written and holds each key once (`Data.put`).  Numbers of different kinds are the same when they are equal as
numbers, and booleans count as the numbers zero and one (`Data.same`).
-/

namespace ServerTrial

/-- A calendar day. -/
structure Day where
  year : Nat
  month : Nat
  day : Nat
  deriving DecidableEq, Repr, Inhabited

/-- A time of day, to the microsecond. -/
structure Clock where
  hour : Nat
  minute : Nat
  second : Nat
  micro : Nat
  deriving DecidableEq, Repr, Inhabited

/-- What a TOML date or time stands for; an offset is in minutes east, and the letter `Z` is offset zero. -/
inductive Moment where
  | day (d : Day)
  | clock (c : Clock)
  | civil (d : Day) (c : Clock)
  | zoned (d : Day) (c : Clock) (offset : Int)
  deriving DecidableEq, Repr, Inhabited

/-- A document value. -/
inductive Data where
  | null
  | bool (b : Bool)
  | int (n : Int)
  | float (x : Float)
  | str (s : String)
  | moment (m : Moment)
  | arr (items : List Data)
  | obj (entries : List (String × Data))
  deriving Inhabited

namespace Data

/-- The value under a key. -/
def find? {α : Type} (key : String) : List (String × α) → Option α
  | [] => none
  | (k, v) :: rest => if k = key then some v else find? key rest

/-- Sets a key: in place if it is there, else at the end. -/
def put {α : Type} (key : String) (value : α) : List (String × α) → List (String × α)
  | [] => [(key, value)]
  | (k, v) :: rest => if k = key then (k, value) :: rest else (k, v) :: put key value rest

theorem find?_put {α : Type} (key k : String) (value : α) (entries : List (String × α)) :
    find? k (put key value entries) = if k = key then some value else find? k entries := by
  induction entries with
  | nil => simp [put, find?, eq_comm]
  | cons e rest ih =>
    obtain ⟨name, old⟩ := e
    by_cases hn : name = key
    · subst hn
      by_cases h : k = name
      · simp [put, find?, h]
      · simp [put, find?, h, Ne.symm h]
    · by_cases h : name = k
      · subst h
        simp [put, find?, hn]
      · simp [put, find?, hn, h, ih]

theorem put_put {α : Type} (key : String) (x y : α) (es : List (String × α)) :
    put key y (put key x es) = put key y es := by
  induction es with
  | nil => rw [put, put, put, if_pos rfl]
  | cons e es ih =>
    obtain ⟨k, old⟩ := e
    by_cases same : k = key
    · rw [put, if_pos same, put, if_pos same, put, if_pos same]
    · rw [put, if_neg same, put, if_neg same, put, if_neg same, ih]

theorem find?_eq_none {α : Type} {key : String} {es : List (String × α)} (absent : key ∉ es.map Prod.fst) :
    find? key es = none := by
  induction es with
  | nil => rfl
  | cons e es ih =>
    rw [List.map_cons, List.mem_cons, not_or] at absent
    rw [find?, if_neg (Ne.symm absent.1), ih absent.2]

theorem put_of_not_mem {α : Type} {key : String} {x : α} {es : List (String × α)} (absent : key ∉ es.map Prod.fst) :
    put key x es = es ++ [(key, x)] := by
  induction es with
  | nil => rfl
  | cons e es ih =>
    rw [List.map_cons, List.mem_cons, not_or] at absent
    rw [put, if_neg (Ne.symm absent.1), ih absent.2, List.cons_append]

theorem exists_find?_of_mem {α : Type} {key : String} {es : List (String × α)} (h : key ∈ es.map Prod.fst) :
    ∃ x, find? key es = some x := by
  induction es with
  | nil => cases h
  | cons e es ih =>
    rw [find?]
    by_cases same : e.1 = key
    · exact ⟨e.2, if_pos same⟩
    · rw [if_neg same]
      exact ih ((List.mem_cons.1 h).resolve_left (Ne.symm same))

/-- The entries of an object, the last value of a repeated key winning at its first place. -/
def collect {α : Type} (entries : List (String × α)) : List (String × α) :=
  entries.foldl (fun acc e => put e.1 e.2 acc) []

def get? (key : String) : Data → Option Data
  | obj entries => find? key entries
  | _ => none

/-- A number seen without its kind. -/
inductive Number where
  | whole (n : Int)
  | other (x : Float)

/-- The number a value counts as. -/
def number? : Data → Option Number
  | bool b => some (.whole (if b then 1 else 0))
  | int n => some (.whole n)
  | float x => some (.other x)
  | _ => none

/-- Equality of numbers; not-a-number equals nothing. -/
def Number.same : Number → Number → Bool
  | .whole m, .whole n => m == n
  | .whole m, .other y => Real64.equalsInt y m
  | .other x, .whole n => Real64.equalsInt x n
  | .other x, .other y => x == y

/-- Is the value a number equal to `a`? -/
def sameNumber (a : Number) (y : Data) : Bool :=
  match y.number? with
  | some b => a.same b
  | none => false

mutual

/-- Equality of values: numbers by value, objects whatever the order of their keys. -/
def same : Data → Data → Bool
  | null, null => true
  | str s, str t => s == t
  | moment m, moment n => m == n
  | arr xs, arr ys => sameItems xs ys
  | obj xs, obj ys => xs.length == ys.length && sameEntries xs ys
  | bool a, y => sameNumber (.whole (if a then 1 else 0)) y
  | int a, y => sameNumber (.whole a) y
  | float a, y => sameNumber (.other a) y
  | _, _ => false

def sameItems : List Data → List Data → Bool
  | [], [] => true
  | x :: xs, y :: ys => same x y && sameItems xs ys
  | _, _ => false

/-- Each entry on the left has an equal one on the right. -/
def sameEntries : List (String × Data) → List (String × Data) → Bool
  | [], _ => true
  | (k, x) :: xs, ys =>
    (match find? k ys with
      | some y => same x y
      | none => false) && sameEntries xs ys

end

mutual

/-- How deep data nest; a scalar has depth one. -/
def depth : Data → Nat
  | arr xs => depthOfItems xs + 1
  | obj xs => depthOfEntries xs + 1
  | _ => 1

def depthOfItems : List Data → Nat
  | [] => 0
  | x :: xs => max (depth x) (depthOfItems xs)

def depthOfEntries : List (String × Data) → Nat
  | [] => 0
  | (_, x) :: xs => max (depth x) (depthOfEntries xs)

end

/-- An array or object without content. -/
def isEmptyContainer : Data → Bool
  | arr [] => true
  | obj [] => true
  | _ => false

/-- Would a condition on the value hold? -/
def truthy : Data → Bool
  | null => false
  | bool b => b
  | int n => n != 0
  | float x => !(x == 0)
  | str s => !s.isEmpty
  | moment _ => true
  | arr items => !items.isEmpty
  | obj entries => !entries.isEmpty

end Data

end ServerTrial
