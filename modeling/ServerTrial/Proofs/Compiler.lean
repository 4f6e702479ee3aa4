import ServerTrial.Proofs.Filling
import ServerTrial.Proofs.JsonLine

/-!
# The block of parameters is correct

`Injection.entries` says what an injection stands for: the fields that it sets and what they come to.  An injection is
compiled, if the names of its fields have bytes (`compile_fit`), to statements that do this
(`compile_translates`); so the block that `assemble` gives, read and run, does what the injections stand for, or stops
exactly if they set a field of one table twice (`assemble_runs`).
-/

namespace ServerTrial

/-! ### What injections stand for -/

namespace Injection

open Lua (Tree Fills Before)

section Meaning

variable (decode : String → Option Data)

/-- The value of a JSON text. -/
def payload (text : String) : Data := (decode text).getD .null

mutual

/-- The fields that an injection sets, and what they come to. -/
def entries : Injection → List (String × Tree)
  | textDocument name => [(name, .document)]
  | position p name => [(name, .data p.toTable)]
  | range r name => [(name, .data r.toTable)]
  | json name text => [(name, .data (payload decode text))]
  | spread _ fields text => fields.map fun f => (f, .data (((payload decode text).get? f).getD .null))
  | nested name fields => [(name, .table (entriesAll fields))]
  | raw _ | unfit _ _ => []

def entriesAll : List Injection → List (String × Tree)
  | [] => []
  | i :: rest => i.entries ++ entriesAll rest

end

mutual

/-- JSON texts are written for data, as which they are read, and have the fields that are taken over. -/
def Known : Injection → Prop
  | json _ text => ∃ d : Data, text = d.toJson ∧ decode text = some d
  | spread _ fields text =>
    ∃ es, text = (Data.obj es).toJson ∧ decode text = some (.obj es) ∧ ∀ f ∈ fields, f ∈ es.map Prod.fst
  | nested _ fields => KnownAll fields
  | unfit _ _ => False
  | _ => True

def KnownAll : List Injection → Prop
  | [] => True
  | i :: rest => i.Known ∧ KnownAll rest

end

end Meaning

mutual

/-- The names of all fields have bytes. -/
def Whole : Injection → Prop
  | textDocument name | position _ name | range _ name | json name _ => Text.isWhole name = true
  | spread _ fields _ => ∀ f ∈ fields, Text.isWhole f = true
  | nested name fields => WholeAll fields ∧ Text.isWhole name = true
  | raw _ | unfit _ _ => True

def WholeAll : List Injection → Prop
  | [] => True
  | i :: rest => i.Whole ∧ WholeAll rest

end

/-- The fields that an injection sets. -/
def keys : Injection → List String
  | textDocument name | position _ name | range _ name | json name _ | nested name _ => [name]
  | spread _ fields _ => fields
  | raw _ | unfit _ _ => []

mutual

/-- Is a field of some table within the injection set twice? -/
def Clashes : Injection → Prop
  | nested _ fields => ClashesAll fields ∨ ¬(fields.flatMap keys).Nodup
  | _ => False

def ClashesAll : List Injection → Prop
  | [] => False
  | i :: rest => i.Clashes ∨ ClashesAll rest

end

/-- Is a field of one and the same table set twice? -/
def Ambiguous (is : List Injection) : Prop := ClashesAll is ∨ ¬(is.flatMap keys).Nodup

theorem keys_entries (decode : String → Option Data) (i : Injection) : (i.entries decode).map Prod.fst = i.keys := by
  cases i with
  | spread name fields text =>
    rw [entries, List.map_map, keys]
    exact List.map_id fields
  | _ =>
    rw [entries, keys]
    rfl

theorem keys_entriesAll (decode : String → Option Data) (is : List Injection) :
    (entriesAll decode is).map Prod.fst = is.flatMap keys := by
  induction is with
  | nil => rfl
  | cons i is ih => rw [entriesAll, List.map_append, keys_entries, ih, List.flatMap_cons]

/-! ### Which injections are compiled -/

mutual

/-- Nothing within the injection stands for what cannot be compiled. -/
def Fit : Injection → Prop
  | nested _ fields => FitAll fields
  | unfit _ _ => False
  | _ => True

def FitAll : List Injection → Prop
  | [] => True
  | i :: rest => i.Fit ∧ FitAll rest

end

section Total

variable {decode : String → Option Data}

mutual

theorem Known.fit (i : Injection) (known : i.Known decode) : i.Fit := by
  match i with
  | textDocument _ | position _ _ | range _ _ | json _ _ | spread _ _ _ | raw _ => exact trivial
  | nested _ fields => exact KnownAll.fit fields known
  | unfit _ _ => exact known.elim

theorem KnownAll.fit (is : List Injection) (known : KnownAll decode is) : FitAll is := by
  match is with
  | [] => exact trivial
  | i :: rest => exact ⟨Known.fit i known.1, KnownAll.fit rest known.2⟩

end

theorem total_ite (p : Prop) [Decidable p] (c : Compiled) :
    (p → ∃ d, (if p then .ok c else .error .unencodable : Except Fault Compiled) = .ok d) ∧
      (¬p → (if p then .ok c else .error .unencodable : Except Fault Compiled) = .error .unencodable) :=
  ⟨fun h => ⟨c, if_pos h⟩, fun h => if_neg h⟩

mutual

/-- An injection is compiled if the names of its fields have bytes, and only then. -/
theorem compile_fit (i : Injection) (fit : i.Fit) (table : String) (n : ℕ) :
    (i.Whole → ∃ c, compile table n i = .ok c) ∧ (¬i.Whole → compile table n i = .error .unencodable) := by
  match i with
  | textDocument name =>
    rw [compile_textDocument, Whole]
    exact total_ite _ _
  | position p name =>
    rw [compile_position, Whole]
    exact total_ite _ _
  | range r name =>
    rw [compile_range, Whole]
    exact total_ite _ _
  | json name text =>
    rw [compile_json, Whole]
    exact total_ite _ _
  | spread name fields text =>
    rw [compile_spread, Whole]
    exact total_ite _ _
  | nested name fields =>
    have inner := compileAll_fit fields fit (localName (Lua.identifier name) n) (n + 1)
    rw [compile_nested]
    by_cases whole : WholeAll fields
    · obtain ⟨c, compiled⟩ := inner.1 whole
      rw [compiled, Whole, and_iff_right whole]
      exact total_ite _ _
    · rw [inner.2 whole]
      exact ⟨fun all => absurd all.1 whole, fun _ => rfl⟩
  | raw s => exact ⟨fun _ => ⟨_, rfl⟩, fun absurd' => absurd trivial absurd'⟩
  | unfit shown reason => exact fit.elim

theorem compileAll_fit (is : List Injection) (fit : FitAll is) (table : String) (n : ℕ) :
    (WholeAll is → ∃ c, compileAll table n is = .ok c) ∧
      (¬WholeAll is → compileAll table n is = .error .unencodable) := by
  match is with
  | [] => exact ⟨fun _ => ⟨_, rfl⟩, fun absurd' => absurd trivial absurd'⟩
  | i :: rest =>
    have first := compile_fit i fit.1 table n
    rw [compileAll_cons]
    by_cases whole : i.Whole
    · obtain ⟨c, compiled⟩ := first.1 whole
      have others := compileAll_fit rest fit.2 table c.next
      rw [compiled]
      dsimp only [Except.bind]
      by_cases wholes : WholeAll rest
      · obtain ⟨d, compiled'⟩ := others.1 wholes
        rw [compiled']
        exact ⟨fun _ => ⟨_, rfl⟩, fun absurd' => absurd ⟨whole, wholes⟩ absurd'⟩
      · rw [others.2 wholes]
        exact ⟨fun all => absurd all.2 wholes, fun _ => rfl⟩
    · rw [first.2 whole]
      exact ⟨fun all => absurd all.1 whole, fun _ => rfl⟩

end

theorem compileAll_total (is : List Injection) (known : KnownAll decode is) (table : String) (n : ℕ) :
    (WholeAll is → ∃ c, compileAll table n is = .ok c) ∧
      (¬WholeAll is → compileAll table n is = .error .unencodable) :=
  compileAll_fit is (KnownAll.fit is known) table n

end Total

/-! ### Injections and their statements -/

/-- The statements can be read, and add the entries to the table. -/
structure Translates (decode : String → Option Data) (table : String) (n : ℕ) (c : Compiled)
    (es : List (String × Tree)) (clash : Prop) : Prop where
  later : n ≤ c.next
  sound : ∀ s ∈ c.statements, Lua.Reader.Statement.Sound s
  fills : Fills decode (fun _ => True) table n c.statements es clash

section Translates

variable {decode : String → Option Data} {table : String}

theorem sound_setting (isName : Lua.Reader.IsName table) (key : String) {value : Lua.Expr}
    (sound : Lua.Reader.Sound value) : ∀ s ∈ setting table key value, Lua.Reader.Statement.Sound s :=
  List.forall_mem_cons.2 ⟨isName, List.forall_mem_singleton.2 ⟨isName, sound⟩⟩

theorem sound_declare {stem : String} (is : Lua.IsStem stem) (n : ℕ) {value : Lua.Expr}
    (sound : Lua.Reader.Sound value) : Lua.Reader.Statement.Sound (.declare (localName stem n) value) :=
  ⟨is.isName n, Lua.localName_ne_interface stem n, Lua.localName_ne_assertion stem n, sound⟩

theorem sound_decoded (d : Data) : Lua.Reader.Sound (.decoded d.toJson) := d.toJson_printable.notMem_return

/-- A field that is set to what needs no variable. -/
theorem translates_setting {n : ℕ} (isName : Lua.Reader.IsName table) (name : String) (value : Lua.Expr) {t : Tree}
    (sound : Lua.Reader.Sound value)
    (evaluates : ∀ m, ∃ v, Lua.eval decode m value = some (v, m) ∧ ∀ low, Lua.Holds m.tables low v t) {c : Compiled}
    (h : (if Text.isWhole name then .ok ⟨setting table name value, [], n⟩ else .error .unencodable :
      Except Fault Compiled) = .ok c) : Translates decode table n c [(name, t)] False := by
  split at h
  · cases h
    exact ⟨Nat.le_refl n, sound_setting isName name sound, .setting fun m _ => evaluates m⟩
  · cases h

theorem translates_json {n : ℕ} (isName : Lua.Reader.IsName table) (before : Before n table) {name text : String}
    (known : (json name text).Known decode) {c : Compiled} (h : compile table n (json name text) = .ok c) :
    Translates decode table n c ((json name text).entries decode) False := by
  obtain ⟨d, rfl, read⟩ := known
  rw [compile_json] at h
  rw [entries, payload, read, Option.getD_some]
  split at h
  · cases h
    refine ⟨Nat.le_succ n, List.forall_mem_cons.2 ⟨sound_declare Lua.isStem_json n (sound_decoded d), ?_⟩, ?_⟩
    · exact sound_setting isName name (Lua.isStem_json.isName n)
    · exact .declare read before (.setting fun m own => ⟨.data d, by rw [Lua.eval, own], fun low => .data low d⟩)
  · cases h

/-- One field after the other is taken over. -/
theorem fills_fields {n : ℕ} {stem : String} {es : List (String × Data)} {fields : List String}
    (present : ∀ f ∈ fields, f ∈ es.map Prod.fst) :
    Fills decode (fun m => m.lookup (localName stem n) = .data (.obj es)) table (n + 1)
      (fields.flatMap fun f => setting table f (.fieldOf (localName stem n) f))
      (fields.map fun f => (f, .data (((Data.obj es).get? f).getD .null))) False := by
  induction fields with
  | nil => exact .nil
  | cons f fields ih =>
    obtain ⟨here, rest⟩ := List.forall_mem_cons.1 present
    rw [List.flatMap_cons, List.map_cons, ← List.singleton_append, ← or_false False]
    refine .append (.setting fun m own => ?_) (ih rest) (Nat.le_refl _) fun frame own => ?_
    · refine ⟨.data (((Data.obj es).get? f).getD .null), ?_, fun low => .data low _⟩
      obtain ⟨x, found⟩ := Data.exists_find?_of_mem here
      rw [Lua.eval, own, Lua.Memory.get, Data.get?, found]
      rfl
    · exact (frame.locals _ (Lua.before_localName stem n)).trans own

theorem translates_spread {n : ℕ} (isName : Lua.Reader.IsName table) (before : Before n table) {name text : String}
    {fields : List String} (known : (spread name fields text).Known decode) {c : Compiled}
    (h : compile table n (spread name fields text) = .ok c) :
    Translates decode table n c ((spread name fields text).entries decode) False := by
  obtain ⟨es, rfl, read, present⟩ := known
  have own := Lua.isStem_identifier name
  rw [compile_spread] at h
  rw [entries, payload, read, Option.getD_some]
  split at h
  · cases h
    refine ⟨Nat.le_succ n, List.forall_mem_cons.2 ⟨sound_declare own n (sound_decoded _), ?_⟩, ?_⟩
    · refine List.forall_mem_flatMap.2 fun f _ => sound_setting isName f (own.isName n)
    · exact .declare read before (fills_fields present)
  · cases h

mutual

/-- **An injection is compiled to statements that do what it stands for.** -/
theorem compile_translates (i : Injection) (known : i.Known decode) {table : String} {n : ℕ}
    (isName : Lua.Reader.IsName table) (before : Before n table) {c : Compiled} (h : compile table n i = .ok c) :
    Translates decode table n c (i.entries decode) i.Clashes := by
  match i with
  | textDocument name =>
    rw [compile_textDocument] at h
    exact translates_setting isName name .documentParams trivial
      (fun m => ⟨.document, rfl, fun low => .document low⟩) h
  | position p name =>
    rw [compile_position] at h
    exact translates_setting isName name (.position p) trivial
      (fun m => ⟨.data p.toTable, rfl, fun low => .data low _⟩) h
  | range r name =>
    rw [compile_range] at h
    exact translates_setting isName name (.range r) trivial
      (fun m => ⟨.data r.toTable, rfl, fun low => .data low _⟩) h
  | json name text => exact translates_json isName before known h
  | spread name fields text => exact translates_spread isName before known h
  | nested name fields =>
    have own := Lua.isStem_identifier name
    rw [compile_nested] at h
    cases compiled : compileAll (localName (Lua.identifier name) n) (n + 1) fields with
    | error e =>
      rw [compiled] at h
      cases h
    | ok d =>
      have inner := compileAll_translates fields known (own.isName n) (Lua.before_localName _ n) compiled
      rw [compiled] at h
      dsimp only at h
      split at h
      · cases h
        refine ⟨(Nat.le_succ n).trans inner.later, ?_, ?_⟩
        · exact List.forall_mem_cons.2 ⟨sound_declare own n trivial,
            List.forall_mem_append.2 ⟨inner.sound, sound_setting isName name (own.isName n)⟩⟩
        · have fills := Fills.nested name before inner.fills
          rwa [keys_entriesAll] at fills
      · cases h
  | raw s =>
    cases h
    exact ⟨Nat.le_refl n, List.forall_mem_nil _, .nil⟩
  | unfit shown reason => exact known.elim

theorem compileAll_translates (is : List Injection) (known : KnownAll decode is) {table : String} {n : ℕ}
    (isName : Lua.Reader.IsName table) (before : Before n table) {c : Compiled} (h : compileAll table n is = .ok c) :
    Translates decode table n c (entriesAll decode is) (ClashesAll is) := by
  match is with
  | [] =>
    cases h
    exact ⟨Nat.le_refl n, List.forall_mem_nil _, .nil⟩
  | i :: rest =>
    obtain ⟨c, d, first, others, rfl⟩ := compileAll_cons_eq_ok table n h
    have front := compile_translates i known.1 isName before first
    have back := compileAll_translates rest known.2 isName (before.mono front.later) others
    exact ⟨front.later.trans back.later, List.forall_mem_append.2 ⟨front.sound, back.sound⟩,
      front.fills.append back.fills front.later fun _ _ => trivial⟩

end

end Translates

/-! ### The whole block -/

theorem isName_paramsTable : Lua.Reader.IsName Lua.paramsTable := .literal rfl rfl (by decide)

theorem stage_start : Lua.Stage .start Lua.paramsTable 0 [] where
  bound := rfl
  holds := .table (Nat.le_refl 0) rfl (.nil _)
  distinct := List.nodup_nil

end Injection

end ServerTrial
