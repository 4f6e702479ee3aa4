import ServerTrial.Proofs.Compiler

/-!
# The names of local variables

A variable is named by what its contents are called, as far as this can stand in a name, and by a number.

* `Lua.numbered n stems`: the names for some stems, with the numbers from `n` on;
* `Injection.compileAll_numbered`: injections that are compiled declare these names, for the stems that they ask for;
* `Lua.Scoped known ss`: the statements use no variables but known ones and those declared before;
* `Injection.assemble_scoped`: so the block of parameters declares different names that are none of the language's own,
  and each of them before it is used.
-/

namespace ServerTrial

namespace Lua

open Injection (localName setting)

/-! ### Names -/

/-- A letter or an underscore, and then letters, digits and underscores. -/
def IsIdentifier (x : String) : Prop :=
  ∃ c cs, x.toList = c :: cs ∧ (Text.isLetter c = true ∨ c = '_') ∧
    ∀ d ∈ cs, Text.isLetter d = true ∨ Text.isDigit d = true ∨ d = '_'

theorem isWordChar_iff (c : Char) :
    isWordChar c = true ↔ Text.isLetter c = true ∨ Text.isDigit c = true ∨ c = '_' := by
  simp [isWordChar, or_assoc]

theorem Reader.IsName.isIdentifier {x : String} (name : Reader.IsName x) : IsIdentifier x := by
  obtain ⟨c, cs, text, letter⟩ := name.letter
  have chars := name.chars
  simp only [text, List.forall_mem_cons, isWordChar_iff] at chars
  refine ⟨c, cs, text, ?_, chars.2⟩
  simpa [letter] using chars.1

/-- Names for the stems, with the numbers from `n` on. -/
def numbered (n : ℕ) : List String → List String
  | [] => []
  | stem :: stems => localName stem n :: numbered (n + 1) stems

theorem numbered_append (n : ℕ) (stems others : List String) :
    numbered n (stems ++ others) = numbered n stems ++ numbered (n + stems.length) others := by
  induction stems generalizing n with
  | nil => rfl
  | cons stem stems ih =>
    have shift : n + 1 + stems.length = n + (stems.length + 1) := by omega
    simp only [List.cons_append, numbered, ih, List.length_cons, shift]

theorem mem_numbered {n : ℕ} {stems : List String} {x : String} (h : x ∈ numbered n stems) :
    ∃ stem ∈ stems, ∃ k, n ≤ k ∧ x = localName stem k := by
  induction stems generalizing n with
  | nil => simp [numbered] at h
  | cons stem stems ih =>
    rw [numbered, List.mem_cons] at h
    obtain rfl | later := h
    · exact ⟨stem, List.mem_cons_self, n, Nat.le_refl n, rfl⟩
    · obtain ⟨other, listed, k, hk, rfl⟩ := ih later
      exact ⟨other, List.mem_cons_of_mem _ listed, k, by omega, rfl⟩

/-- The numbers make the names different, whatever the stems are. -/
theorem nodup_numbered (n : ℕ) (stems : List String) : (numbered n stems).Nodup := by
  induction stems generalizing n with
  | nil => exact List.nodup_nil
  | cons stem stems ih =>
    rw [numbered, List.nodup_cons]
    refine ⟨?_, ih (n + 1)⟩
    intro again
    obtain ⟨other, -, k, hk, same⟩ := mem_numbered again
    have number := Injection.localName_number same
    omega

/-! ### Declarations and uses -/

/-- The variables that an expression is about. -/
def Expr.uses : Expr → List String
  | .name x | .fieldOf x _ => [x]
  | _ => []

/-- What a statement assigns. -/
def Statement.value? : Statement → Option Expr
  | .guard _ _ => none
  | .assign _ _ value | .declare _ value => some value

/-- The variables that a statement uses: the table that it is about, and those in the value. -/
def Statement.uses : Statement → List String
  | .guard table _ => [table]
  | .assign table _ value => table :: value.uses
  | .declare _ value => value.uses

/-- The variables that statements declare, in this order. -/
def declared : List Statement → List String
  | [] => []
  | .declare x _ :: ss => x :: declared ss
  | .guard _ _ :: ss | .assign _ _ _ :: ss => declared ss

@[simp] theorem declared_append (ss ts : List Statement) : declared (ss ++ ts) = declared ss ++ declared ts := by
  induction ss with
  | nil => rfl
  | cons s ss ih => cases s <;> simp [declared, ih]

/-- Each statement uses only variables that are known or that a statement before it declares. -/
def Scoped (known : List String) (ss : List Statement) : Prop :=
  ∀ before s after, ss = before ++ s :: after → ∀ x ∈ s.uses, x ∈ known ∨ x ∈ declared before

namespace Scoped

variable {known more : List String} {ss ts : List Statement}

theorem nil : Scoped known [] := by
  intro before s after parts
  simp at parts

theorem mono (inOrder : Scoped known ss) (sub : ∀ x ∈ known, x ∈ more) : Scoped more ss := by
  intro before s after parts x used
  exact (inOrder before s after parts x used).imp_left (sub x)

/-- What the first statements declare is known to the others. -/
theorem append (first : Scoped known ss) (others : Scoped (known ++ declared ss) ts) : Scoped known (ss ++ ts) := by
  intro before s after parts x used
  obtain ⟨rest, rfl, inside⟩ | ⟨rest, rfl, inside⟩ := List.append_eq_append_iff.1 parts
  · have earlier := others rest s after inside x used
    rw [List.mem_append] at earlier
    rw [declared_append, List.mem_append]
    tauto
  · cases rest with
    | nil =>
      have earlier := others [] s after inside.symm x used
      rw [List.append_nil, List.mem_append] at earlier
      exact earlier.resolve_right List.not_mem_nil
    | cons s' rest =>
      obtain ⟨rfl, rfl⟩ := List.cons.inj inside
      exact first before s rest rfl x used

theorem single {s : Statement} (uses : ∀ x ∈ s.uses, x ∈ known) : Scoped known [s] := by
  intro before s' after parts x used
  cases before with
  | nil =>
    obtain ⟨rfl, -⟩ := List.cons.inj parts
    exact .inl (uses x used)
  | cons t before => simp at parts

theorem setting {table key : String} {value : Expr} (ready : table ∈ known) (uses : ∀ x ∈ value.uses, x ∈ known) :
    Scoped known (setting table key value) := by
  have guarded : Scoped known [.guard table key] := single (by simpa [Statement.uses] using ready)
  refine guarded.append (single ?_)
  simpa [Statement.uses, declared] using ⟨ready, uses⟩

/-- A variable is known behind its declaration. -/
theorem declare {x : String} {value : Expr} (uses : ∀ y ∈ value.uses, y ∈ known) (others : Scoped (known ++ [x]) ss) :
    Scoped known (.declare x value :: ss) := by
  have declaration : Scoped known [.declare x value] := single uses
  exact declaration.append others

end Scoped

@[simp] theorem declared_setting (table key : String) (value : Expr) : declared (setting table key value) = [] := rfl

end Lua

namespace Injection

open Lua (Expr Statement IsIdentifier Scoped declared numbered)

/-! ### The names that injections ask for -/

mutual

/-- What the variables that an injection needs are named by. -/
def stems : Injection → List String
  | json _ _ => ["json"]
  | spread name _ _ => [Lua.identifier name]
  | nested name fields => Lua.identifier name :: stemsAll fields
  | _ => []

def stemsAll : List Injection → List String
  | [] => []
  | i :: rest => i.stems ++ stemsAll rest

end

mutual

theorem isStem_stems (i : Injection) : ∀ stem ∈ i.stems, Lua.IsStem stem := by
  match i with
  | json _ _ => simp [stems, Lua.isStem_json]
  | spread name _ _ => simp [stems, Lua.isStem_identifier]
  | nested name fields => simpa [stems, Lua.isStem_identifier] using isStem_stemsAll fields
  | textDocument _ | position _ _ | range _ _ | raw _ | unfit _ _ => simp [stems]

theorem isStem_stemsAll (is : List Injection) : ∀ stem ∈ stemsAll is, Lua.IsStem stem := by
  match is with
  | [] => simp [stemsAll]
  | i :: rest =>
    intro stem h
    rw [stemsAll, List.mem_append] at h
    exact h.elim (isStem_stems i stem) (isStem_stemsAll rest stem)

end

/-- The statements declare the names for certain stems, and use none but these and the table. -/
structure Declares (table : String) (n : ℕ) (stems : List String) (c : Compiled) : Prop where
  next : c.next = n + stems.length
  names : declared c.statements = numbered n stems
  inOrder : Scoped [table] c.statements

section Declares

variable {table : String} {n : ℕ}

theorem declares_setting {name : String} {value : Expr} (plain : value.uses = []) {c : Compiled}
    (h : (if Text.isWhole name then .ok ⟨setting table name value, [], n⟩ else .error .unencodable :
      Except Fault Compiled) = .ok c) : Declares table n [] c := by
  split at h
  · cases h
    exact ⟨rfl, rfl, .setting (by simp) (by simp [plain])⟩
  · cases h

theorem declares_fields (table own : String) (fields : List String) :
    declared (fields.flatMap fun f => setting table f (.fieldOf own f)) = [] ∧
      Scoped [table, own] (fields.flatMap fun f => setting table f (.fieldOf own f)) := by
  induction fields with
  | nil => exact ⟨rfl, .nil⟩
  | cons f fields ih =>
    obtain ⟨none, inOrder⟩ := ih
    rw [List.flatMap_cons]
    refine ⟨by simp [none], .append (.setting (by simp) (by simp [Expr.uses])) ?_⟩
    simpa using inOrder

theorem Declares.append {stems others : List String} {c d : Compiled} (first : Declares table n stems c)
    (second : Declares table c.next others d) : Declares table n (stems ++ others) (c.append d) where
  next := by
    rw [Compiled.append, second.next, first.next, List.length_append, Nat.add_assoc]
  names := by
    rw [Compiled.append, Lua.declared_append, first.names, second.names, first.next, Lua.numbered_append]
  inOrder := first.inOrder.append (second.inOrder.mono (by simp))

mutual

theorem compile_numbered (i : Injection) {table : String} {n : ℕ} {c : Compiled} (h : compile table n i = .ok c) :
    Declares table n i.stems c := by
  match i with
  | textDocument name =>
    rw [compile_textDocument] at h
    exact declares_setting rfl h
  | position p name =>
    rw [compile_position] at h
    exact declares_setting rfl h
  | range r name =>
    rw [compile_range] at h
    exact declares_setting rfl h
  | json name text =>
    rw [compile_json] at h
    split at h
    · cases h
      exact ⟨rfl, rfl, .declare (by simp [Expr.uses]) (.setting (by simp) (by simp [Expr.uses]))⟩
    · cases h
  | spread name fields text =>
    rw [compile_spread] at h
    split at h
    · cases h
      obtain ⟨none, inOrder⟩ := declares_fields table (localName (Lua.identifier name) n) fields
      exact ⟨rfl, by simp [declared, none, stems, numbered], .declare (by simp [Expr.uses]) inOrder⟩
    · cases h
  | nested name fields =>
    rw [compile_nested] at h
    cases compiled : compileAll (localName (Lua.identifier name) n) (n + 1) fields with
    | error e =>
      rw [compiled] at h
      cases h
    | ok d =>
      have inner := compileAll_numbered fields compiled
      rw [compiled] at h
      dsimp only at h
      split at h
      · cases h
        refine ⟨?_, ?_, .declare (by simp [Expr.uses]) (.append (inner.inOrder.mono ?_) (.setting ?_ ?_))⟩
        · simp [inner.next, stems]
          omega
        · simp [declared, inner.names, stems, numbered]
        all_goals simp [Expr.uses]
      · cases h
  | raw s =>
    cases h
    exact ⟨rfl, rfl, .nil⟩
  | unfit shown reason => cases h

/-- **Injections that are compiled declare the names that they ask for**, with one number after the other. -/
theorem compileAll_numbered (is : List Injection) {table : String} {n : ℕ} {c : Compiled}
    (h : compileAll table n is = .ok c) : Declares table n (stemsAll is) c := by
  match is with
  | [] =>
    cases h
    exact ⟨rfl, rfl, .nil⟩
  | i :: rest =>
    obtain ⟨c, d, first, others, rfl⟩ := compileAll_cons_eq_ok table n h
    exact (compile_numbered i first).append (compileAll_numbered rest others)

end

end Declares

mutual

theorem Fit.of_compile (i : Injection) {table : String} {n : ℕ} {c : Compiled} (h : compile table n i = .ok c) :
    i.Fit := by
  match i with
  | textDocument _ | position _ _ | range _ _ | json _ _ | spread _ _ _ | raw _ => exact trivial
  | nested name fields =>
    rw [compile_nested] at h
    cases compiled : compileAll (localName (Lua.identifier name) n) (n + 1) fields with
    | error e =>
      rw [compiled] at h
      cases h
    | ok d => exact FitAll.of_compileAll fields compiled
  | unfit _ _ => cases h

theorem FitAll.of_compileAll (is : List Injection) {table : String} {n : ℕ} {c : Compiled}
    (h : compileAll table n is = .ok c) : FitAll is := by
  match is with
  | [] => exact trivial
  | i :: rest =>
    obtain ⟨c, d, first, others, -⟩ := compileAll_cons_eq_ok table n h
    exact ⟨Fit.of_compile i first, FitAll.of_compileAll rest others⟩

end

/-! ### The block of parameters -/

/-- There is a block exactly if nothing is unfit and the names of all fields have bytes. -/
theorem exists_assemble_iff (is : List Injection) : (∃ c, assemble is = .ok c) ↔ FitAll is ∧ WholeAll is := by
  constructor
  · rintro ⟨c, compiled⟩
    have fit := FitAll.of_compileAll is compiled
    refine ⟨fit, ?_⟩
    by_contra bare
    have fails := (compileAll_fit is fit Lua.paramsTable 1).2 bare
    rw [assemble, fails] at compiled
    cases compiled
  · rintro ⟨fit, whole⟩
    exact (compileAll_fit is fit Lua.paramsTable 1).1 whole

section Block

variable {stems : List String} {c : Compiled} (declares : Declares Lua.paramsTable 1 stems c)
  (are : ∀ stem ∈ stems, Lua.IsStem stem)
include declares are

theorem Declares.exists_localName {x : String} (h : x ∈ declared c.statements) :
    ∃ stem k, Lua.IsStem stem ∧ x = localName stem k := by
  rw [declares.names] at h
  obtain ⟨stem, listed, k, -, rfl⟩ := Lua.mem_numbered h
  exact ⟨stem, k, are stem listed, rfl⟩

theorem Declares.isName_declared {x : String} (h : x ∈ declared c.statements) : Lua.Reader.IsName x := by
  obtain ⟨stem, k, is, rfl⟩ := declares.exists_localName are h
  exact is.isName k

/-- What is used is the table of parameters, or is declared. -/
theorem Declares.isName_used {s : Statement} (hs : s ∈ c.statements) {x : String} (h : x ∈ s.uses) :
    Lua.Reader.IsName x := by
  obtain ⟨before, after, parts⟩ := List.append_of_mem hs
  obtain known | earlier := declares.inOrder before s after parts x h
  · rw [List.mem_singleton.1 known]
    exact isName_paramsTable
  · refine declares.isName_declared are ?_
    rw [parts, Lua.declared_append]
    exact List.mem_append_left _ earlier

/-- The names stand as names in the block, and so it is read as the statements that it is written from. -/
theorem Declares.reads
    (plain : ∀ s ∈ c.statements, ∀ text, s.value? = some (.decoded text) → '\r' ∉ text.toList) :
    Lua.Reader.read (Lua.blockText c.statements) = some c.statements := by
  have sound : ∀ s ∈ c.statements, ∀ value, s.value? = some value → (∀ x ∈ value.uses, Lua.Reader.IsName x) →
      Lua.Reader.Sound value := by
    intro s hs value assigned names
    cases value with
    | decoded text => exact plain s hs text assigned
    | name x | fieldOf x key => exact names x (by simp [Expr.uses])
    | documentParams | position p | range r | emptyTable => trivial
  refine Lua.Reader.read_blockText fun s hs => ?_
  have names : ∀ x ∈ s.uses, Lua.Reader.IsName x := fun x used => declares.isName_used are hs used
  cases s with
  | guard table key => exact names table (by simp [Statement.uses])
  | assign table key value =>
    simp only [Statement.uses, List.forall_mem_cons] at names
    exact ⟨names.1, sound _ hs value rfl names.2⟩
  | declare x value =>
    have mem : x ∈ declared c.statements := by
      obtain ⟨before, after, parts⟩ := List.append_of_mem hs
      simp [parts, declared]
    obtain ⟨stem, k, is, rfl⟩ := declares.exists_localName are mem
    have value' := sound _ hs value rfl names
    exact ⟨is.isName k, Lua.localName_ne_interface stem k, Lua.localName_ne_assertion stem k, value'⟩

end Block

/-- **Each local variable of the block of parameters has a name of its own.**  There is a block if all injections can be
compiled and the names of their fields have bytes.  What it declares are identifiers, which differ from each other, from
the table of parameters and from the words of the language; a variable is used, as a table or for its value, only behind
its declaration.  The text of the block is read as these statements, if no JSON text in it has a carriage return. -/
theorem assemble_scoped (is : List Injection) :
    ((∃ c, assemble is = .ok c) ↔ FitAll is ∧ WholeAll is) ∧
    ∀ c, assemble is = .ok c →
      (∀ x ∈ declared c.statements, IsIdentifier x ∧ x ≠ Lua.paramsTable ∧ x ∉ Lua.Reader.reserved) ∧
      (declared c.statements).Nodup ∧
      (∀ before s after, c.statements = before ++ s :: after →
        ∀ x ∈ s.uses, x = Lua.paramsTable ∨ x ∈ declared before) ∧
      ((∀ s ∈ c.statements, ∀ text, s.value? = some (.decoded text) → '\r' ∉ text.toList) →
        Lua.Reader.read (Lua.blockText c.statements) = some c.statements) := by
  refine ⟨exists_assemble_iff is, fun c compiled => ?_⟩
  have declares : Declares Lua.paramsTable 1 (stemsAll is) c := compileAll_numbered is compiled
  have are := isStem_stemsAll is
  refine ⟨fun x hx => ?_, ?_, fun before s after parts x used => ?_, declares.reads are⟩
  · have name := declares.isName_declared are hx
    obtain ⟨stem, k, -, rfl⟩ := declares.exists_localName are hx
    exact ⟨name.isIdentifier, (Lua.before_paramsTable k stem k (Nat.le_refl k)).symm, name.free⟩
  · rw [declares.names]
    exact Lua.nodup_numbered 1 _
  · simpa using declares.inOrder before s after parts x used

/-- Fields whose names are cleaned to the same text, or to what a variable is called already. -/
def alikeFields : List Injection :=
  [.nested "größe" [.nested "gr__e" [.json "and" "1"], .nested "gr__e_2" []], .spread "2" ["x"] "\x7b\x7d"]

/-- The block for these fields. -/
def alikeBlock : List Statement :=
  [.declare "gr__e_1" .emptyTable, .declare "gr__e_2" .emptyTable, .declare "json_3" (.decoded "1")] ++
    setting "gr__e_2" "and" (.name "json_3") ++ setting "gr__e_1" "gr__e" (.name "gr__e_2") ++
    .declare "gr__e_2_4" .emptyTable :: setting "gr__e_1" "gr__e_2" (.name "gr__e_2_4") ++
    setting "params" "größe" (.name "gr__e_1") ++
    .declare "v_2_5" (.decoded "\x7b\x7d") :: setting "params" "x" (.fieldOf "v_2_5" "x")

theorem assemble_scoped_alikeFields : assemble alikeFields = .ok ⟨alikeBlock, [], 6⟩ ∧ FitAll alikeFields ∧
    (declared alikeBlock).Nodup ∧ Lua.Reader.read (Lua.blockText alikeBlock) = some alikeBlock := by
  have compiled : assemble alikeFields = .ok ⟨alikeBlock, [], 6⟩ := by rfl
  obtain ⟨assembles, blocks⟩ := assemble_scoped alikeFields
  obtain ⟨-, distinct, -, reads⟩ := blocks _ compiled
  refine ⟨compiled, (assembles.1 ⟨_, compiled⟩).1, distinct, reads ?_⟩
  simp [alikeBlock, setting, Statement.value?]

end Injection

end ServerTrial
