import Mathlib
import ServerTrial.Lua.Injection
import ServerTrial.Proofs.Results

/-!
# What compiling injections yields

`compile_textDocument` and its siblings say what each kind of injection is compiled to, and when it cannot be.

* `assemble_substitutions`: the replacements that injections ask for are collected in the order in which the injections
  are gone through;
* `assemble_plainAll`: without them the statements are the same.
-/

namespace ServerTrial

namespace Injection

theorem map_eq_ok {ε α β : Type} {x : Except ε α} {f : α → β} {b : β} (h : x.map f = .ok b) :
    ∃ a, x = .ok a ∧ f a = b := by
  cases x with
  | error e => exact nomatch h
  | ok a => exact ⟨a, rfl, Except.ok.inj h⟩

/-! ### What each kind is compiled to -/

/-- The statements that set a field. -/
def setting (table key : String) (value : Lua.Expr) : List Lua.Statement := [.guard table key, .assign table key value]

/-- What is compiled first, and then the rest. -/
def Compiled.append (c d : Compiled) : Compiled :=
  ⟨c.statements ++ d.statements, c.substitutions ++ d.substitutions, d.next⟩

section Compile

variable (table : String) (n : Nat)

theorem guarded_map {α : Type} (key : String) (value : Lua.Expr) (f : List Lua.Statement → α) :
    (guarded table key value).map f =
      if Text.isWhole key then .ok (f (setting table key value)) else .error .unencodable := by
  unfold guarded
  split <;> rfl

theorem mapM_guarded (value : String → Lua.Expr) (fields : List String) :
    fields.mapM (fun f => guarded table f (value f)) =
      if ∀ f ∈ fields, Text.isWhole f = true then .ok (fields.map fun f => setting table f (value f))
      else .error .unencodable := by
  induction fields with
  | nil => rfl
  | cons f fields ih =>
    rw [List.mapM_cons, ih]
    simp only [List.forall_mem_cons]
    by_cases whole : Text.isWhole f = true
    · by_cases others : ∀ g ∈ fields, Text.isWhole g = true
      · rw [if_pos others, if_pos ⟨whole, others⟩, guarded, if_pos whole]
        rfl
      · rw [if_neg others, if_neg fun all : _ ∧ _ => others all.2, guarded, if_pos whole]
        rfl
    · rw [if_neg fun all : _ ∧ _ => whole all.1, guarded, if_neg whole]
      rfl

theorem compile_textDocument (name : String) : compile table n (textDocument name) =
    if Text.isWhole name then .ok ⟨setting table name .documentParams, [], n⟩ else .error .unencodable :=
  guarded_map table name .documentParams _

theorem compile_position (p : Position) (name : String) : compile table n (position p name) =
    if Text.isWhole name then .ok ⟨setting table name (.position p), [], n⟩ else .error .unencodable :=
  guarded_map table name (.position p) _

theorem compile_range (r : Range) (name : String) : compile table n (range r name) =
    if Text.isWhole name then .ok ⟨setting table name (.range r), [], n⟩ else .error .unencodable :=
  guarded_map table name (.range r) _

theorem compile_json (name text : String) : compile table n (json name text) =
    if Text.isWhole name then
      .ok ⟨.declare (localName "json" n) (.decoded text) :: setting table name (.name (localName "json" n)), [], n + 1⟩
    else .error .unencodable :=
  guarded_map table name (.name (localName "json" n)) _

theorem compile_spread (name : String) (fields : List String) (text : String) :
    compile table n (spread name fields text) =
      if ∀ f ∈ fields, Text.isWhole f = true then
        .ok ⟨.declare (localName (Lua.identifier name) n) (.decoded text) ::
          fields.flatMap fun f => setting table f (.fieldOf (localName (Lua.identifier name) n) f), [], n + 1⟩
      else .error .unencodable := by
  rw [compile, mapM_guarded, List.flatMap_def]
  split <;> rfl

theorem compile_nested (name : String) (fields : List Injection) : compile table n (nested name fields) =
    match compileAll (localName (Lua.identifier name) n) (n + 1) fields with
    | .error e => .error e
    | .ok c =>
      if Text.isWhole name then
        .ok ⟨.declare (localName (Lua.identifier name) n) .emptyTable ::
          (c.statements ++ setting table name (.name (localName (Lua.identifier name) n))), c.substitutions, c.next⟩
      else .error .unencodable := by
  rw [compile]
  cases compileAll (localName (Lua.identifier name) n) (n + 1) fields with
  | error e => rfl
  | ok c => exact guarded_map table name _ _

theorem compileAll_cons (i : Injection) (rest : List Injection) : compileAll table n (i :: rest) =
    (compile table n i).bind fun c => (compileAll table c.next rest).map c.append := by
  rw [compileAll]
  cases compile table n i with
  | error e => rfl
  | ok c =>
    dsimp only [Except.bind]
    cases compileAll table c.next rest <;> rfl

theorem compileAll_cons_eq_ok {i : Injection} {rest : List Injection} {c : Compiled}
    (h : compileAll table n (i :: rest) = .ok c) : ∃ first others, compile table n i = .ok first ∧
      compileAll table first.next rest = .ok others ∧ c = first.append others := by
  rw [compileAll_cons] at h
  cases front : compile table n i with
  | error e =>
    rw [front] at h
    exact nomatch h
  | ok first =>
    rw [front] at h
    obtain ⟨others, back, rfl⟩ := map_eq_ok h
    exact ⟨first, others, rfl, back, rfl⟩

end Compile

/-! ### Replacements -/

mutual

/-- The replacements that an injection asks for. -/
def raws : Injection → List Substitution
  | nested _ fields => rawsAll fields
  | raw s => [s]
  | _ => []

/-- The replacements that injections ask for, one injection after the other. -/
def rawsAll : List Injection → List Substitution
  | [] => []
  | i :: rest => i.raws ++ rawsAll rest

end

@[simp] theorem rawsAll_append (is js : List Injection) : rawsAll (is ++ js) = rawsAll is ++ rawsAll js := by
  induction is with
  | nil => rfl
  | cons i is ih => rw [List.cons_append, rawsAll, rawsAll, ih, List.append_assoc]

mutual

theorem compile_substitutions {table : String} {n : Nat} (i : Injection) {c : Compiled}
    (h : compile table n i = .ok c) : c.substitutions = i.raws := by
  match i with
  | textDocument _ | position _ _ | range _ _ | json _ _ | spread _ _ _ =>
    rw [compile] at h
    obtain ⟨s, -, rfl⟩ := map_eq_ok h
    rw [raws]
    all_goals exact nofun
  | nested name fields =>
    rw [compile] at h
    split at h
    · exact nomatch h
    next inner hinner =>
      obtain ⟨s, -, rfl⟩ := map_eq_ok h
      rw [raws]
      change inner.substitutions = rawsAll fields
      exact compileAll_substitutions fields hinner
  | raw s =>
    rw [compile] at h
    rw [← Except.ok.inj h, raws]
  | unfit _ _ =>
    rw [compile] at h
    exact nomatch h

theorem compileAll_substitutions {table : String} {n : Nat} (is : List Injection) {c : Compiled}
    (h : compileAll table n is = .ok c) : c.substitutions = rawsAll is := by
  match is with
  | [] =>
    rw [compileAll] at h
    rw [← Except.ok.inj h, rawsAll]
  | i :: rest =>
    obtain ⟨first, others, hfirst, hothers, rfl⟩ := compileAll_cons_eq_ok table n h
    rw [Compiled.append, rawsAll, compile_substitutions i hfirst, compileAll_substitutions rest hothers]

end

theorem assemble_substitutions {is : List Injection} {c : Compiled} (h : assemble is = .ok c) :
    c.substitutions = rawsAll is := compileAll_substitutions is h

/-! ### Injections without replacements -/

mutual

/-- The injection without the replacements in it. -/
def plain : Injection → List Injection
  | nested name fields => [nested name (plainAll fields)]
  | raw _ => []
  | i => [i]

def plainAll : List Injection → List Injection
  | [] => []
  | i :: rest => i.plain ++ plainAll rest

end

/-- What was compiled, without the replacements. -/
def Compiled.plain (c : Compiled) : Compiled := { c with substitutions := [] }

theorem compileAll_append (table : String) (is js : List Injection) (n : Nat) : compileAll table n (is ++ js) =
    (compileAll table n is).bind fun c => (compileAll table c.next js).map c.append := by
  induction is generalizing n with
  | nil =>
    change compileAll table n js = Except.map _ (compileAll table n js)
    cases compileAll table n js <;> rfl
  | cons i is ih =>
    rw [List.cons_append, compileAll_cons, compileAll_cons]
    cases compile table n i with
    | error e => rfl
    | ok c =>
      change Except.map c.append (compileAll table c.next (is ++ js)) =
        Except.bind (Except.map c.append (compileAll table c.next is)) _
      rw [ih]
      cases compileAll table c.next is with
      | error e => rfl
      | ok d =>
        change Except.map c.append (Except.map d.append (compileAll table d.next js)) =
          Except.map (c.append d).append (compileAll table d.next js)
        cases compileAll table d.next js with
        | error e => rfl
        | ok e => simp [Except.map, Compiled.append]

theorem compileAll_singleton (table : String) (n : Nat) (i : Injection) :
    compileAll table n [i] = compile table n i := by
  rw [compileAll_cons]
  cases compile table n i with
  | error e => rfl
  | ok c => simp [Except.bind, Except.map, compileAll, Compiled.append]

theorem map_plain {table : String} {n : Nat} {i : Injection} (none : i.raws = []) :
    (compile table n i).map Compiled.plain = compile table n i := by
  cases h : compile table n i with
  | error e => rfl
  | ok c =>
    have empty : c.substitutions = [] := (compile_substitutions i h).trans none
    rw [Except.map, Compiled.plain, ← empty]

mutual

theorem compile_plain (table : String) (n : Nat) (i : Injection) :
    compileAll table n i.plain = (compile table n i).map Compiled.plain := by
  match i with
  | textDocument _ | position _ _ | range _ _ | json _ _ | spread _ _ _ | unfit _ _ =>
    rw [plain, compileAll_singleton]
    exact (map_plain rfl).symm
    all_goals exact nofun
  | nested name fields =>
    rw [plain, compileAll_singleton, compile_nested, compile_nested, compileAll_plainAll]
    cases compileAll (localName (Lua.identifier name) n) (n + 1) fields with
    | error e => rfl
    | ok c =>
      dsimp only [Except.map]
      split <;> rfl
  | raw s => rfl

theorem compileAll_plainAll (table : String) (n : Nat) (is : List Injection) :
    compileAll table n (plainAll is) = (compileAll table n is).map Compiled.plain := by
  match is with
  | [] => rfl
  | i :: rest =>
    rw [plainAll, compileAll_append, compile_plain, compileAll_cons]
    cases compile table n i with
    | error e => rfl
    | ok c =>
      change Except.map _ (compileAll table c.next (plainAll rest)) =
        Except.map _ (Except.map _ (compileAll table c.next rest))
      rw [compileAll_plainAll]
      cases compileAll table c.next rest <;> rfl

end

end Injection

end ServerTrial
