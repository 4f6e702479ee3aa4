import ServerTrial.Proofs.TomlLines

/-!
# Tables in TOML

* `Toml.Tabular`: a table with bare keys whose values are read back;
* `Toml.linesOf`: the lines of such a table;
* `Toml.toToml_lines`: the writer writes these lines, by induction on the table, so that
* `Toml.ofToml_toToml`: the table is read back as what its lines tell.
-/

namespace ServerTrial.Toml

/-- A table whose keys are bare and whose values are read back, each behind its key or as a table of its own.  No key
stands there twice. -/
inductive Tabular : Entries → Prop
  | nil : Tabular []
  | plain {k : String} {x : Data} {rest : Entries} (bare : Bare k) (fresh : k ∉ rest.map Prod.fst)
      (inLine : isSection x = false) (read : ReadBack x) (others : Tabular rest) : Tabular ((k, x) :: rest)
  | table {k : String} {inner rest : Entries} (bare : Bare k) (fresh : k ∉ rest.map Prod.fst) (own : Tabular inner)
      (others : Tabular rest) : Tabular ((k, .obj inner) :: rest)

theorem Tabular.append {entries more : Entries} (first : Tabular entries) (second : Tabular more)
    (apart : ∀ k ∈ entries.map Prod.fst, k ∉ more.map Prod.fst) : Tabular (entries ++ more) := by
  have elsewhere {k : String} {rest : Entries} (fresh : k ∉ rest.map Prod.fst) (other : k ∉ more.map Prod.fst) :
      k ∉ (rest ++ more).map Prod.fst := by
    rw [List.map_append, List.mem_append, not_or]
    exact ⟨fresh, other⟩
  induction first with
  | nil => exact second
  | plain bare fresh inLine read _ ih =>
    obtain ⟨own, others⟩ := List.forall_mem_cons.1 apart
    exact .plain bare (elsewhere fresh own) inLine read (ih others)
  | table bare fresh inner _ _ ih =>
    obtain ⟨own, others⟩ := List.forall_mem_cons.1 apart
    exact .table bare (elsewhere fresh own) inner (ih others)

/-- The entries that stand behind their keys. -/
def inLine (entries : Entries) : Entries := entries.filter fun e => !isSection e.2

theorem Tabular.inLine_sound {entries : Entries} (tabular : Tabular entries) :
    ∀ e ∈ inLine entries, Bare e.1 ∧ ReadBack e.2 := by
  induction tabular with
  | nil => exact List.forall_mem_nil _
  | plain bare _ inLine read _ ih =>
    rw [Toml.inLine, List.filter_cons, inLine]
    exact List.forall_mem_cons.2 ⟨⟨bare, read⟩, ih⟩
  | table _ _ _ _ _ ih => exact ih

/-- The first lines of a table with a name: its header, unless there is nothing to put under it, and its entries. -/
def ownLines (name : List String) (entries : Entries) (alone : Bool) : List Line :=
  (if !name.isEmpty && (!(inLine entries).isEmpty || alone) then [Line.header name] else []) ++
    (inLine entries).map fun e => Line.entry e.1 e.2

/-- The lines of a table with a name: its own and those of the tables in it, with blank lines between. -/
def sectionLines (name : List String) (entries : Entries) (inner : List (List Line)) : List Line :=
  let own := ownLines name entries inner.isEmpty
  [Line.blank].intercalate ((if own.isEmpty then [] else [own]) ++ inner)

mutual

/-- The lines of a table. -/
def linesOf : List String → Data → List Line
  | name, .obj entries => sectionLines name entries (innerLines name entries)
  | _, _ => []

/-- The lines of each of the tables in a table. -/
def innerLines : List String → Entries → List (List Line)
  | _, [] => []
  | name, (k, .obj inner) :: rest => linesOf (name ++ [k]) (.obj inner) :: innerLines name rest
  | name, _ :: rest => innerLines name rest

end

/-- A text of lines that are read. -/
def Spelled (s : String) (lines : List Line) : Prop :=
  s.toList = lines.flatMap Line.chars ∧ ∀ line ∈ lines, line.Sound

def Writes (text : Option String) (lines : List Line) : Prop := ∃ s, text = some s ∧ Spelled s lines

theorem allSome_of_writes {texts : List (Option String)} {parts : List (List Line)}
    (written : List.Forall₂ Writes texts parts) : ∃ ss, allSome texts = some ss ∧ List.Forall₂ Spelled ss parts := by
  induction written with
  | nil => exact ⟨[], rfl, .nil⟩
  | cons own _ ih =>
    obtain ⟨s, rfl, spelled⟩ := own
    obtain ⟨ss, all, others⟩ := ih
    exact ⟨s :: ss, by rw [allSome, all]; rfl, .cons spelled others⟩

theorem Spelled.append {s t : String} {lines more : List Line} (first : Spelled s lines) (second : Spelled t more) :
    Spelled (s ++ t) (lines ++ more) := by
  refine ⟨?_, List.forall_mem_append.2 ⟨first.2, second.2⟩⟩
  rw [String.toList_append, List.flatMap_append, first.1, second.1]

/-- Texts of one line each, put together. -/
theorem join_of_writes {texts : List (Option String)} {lines : List Line}
    (written : List.Forall₂ (fun text line => Writes text [line]) texts lines) :
    ∃ ss, allSome texts = some ss ∧ ss.isEmpty = lines.isEmpty ∧ Spelled (String.join ss) lines := by
  induction written with
  | nil => exact ⟨[], rfl, rfl, rfl, List.forall_mem_nil _⟩
  | cons own _ ih =>
    obtain ⟨s, rfl, spelled⟩ := own
    obtain ⟨ss, all, -, others⟩ := ih
    refine ⟨s :: ss, by rw [allSome, all]; rfl, rfl, ?_⟩
    rw [String.join_cons]
    exact spelled.append others

theorem spelled_intercalate {ss : List String} {parts : List (List Line)} (spelled : List.Forall₂ Spelled ss parts) :
    Spelled ("\n".intercalate ss) ([Line.blank].intercalate parts) := by
  have feed : Spelled "\n" [.blank] := ⟨rfl, List.forall_mem_singleton.2 trivial⟩
  induction spelled with
  | nil => exact ⟨rfl, List.forall_mem_nil _⟩
  | cons own others ih =>
    cases others with
    | nil =>
      rw [String.intercalate_singleton, List.intercalate_singleton]
      exact own
    | cons own' others =>
      rw [String.intercalate_cons_cons, List.intercalate_cons_cons]
      exact (own.append feed).append ih

theorem writes_entry {k : String} {x : Data} (bare : Bare k) (read : ReadBack x) :
    Writes ((valueText 0 x).map fun t => keyText k ++ " = " ++ t ++ "\n") [.entry k x] := by
  obtain ⟨text, written, spells⟩ := read
  rw [written, Option.map_some]
  refine ⟨_, rfl, ?_, List.forall_mem_singleton.2 ⟨bare, text, written, spells⟩⟩
  rw [List.flatMap_singleton, Line.chars, written, Option.getD_some, keyText_bare bare]
  simp only [String.toList_append, List.append_assoc]
  rfl

theorem writes_header {name : List String} (some : name ≠ []) (bare : ∀ k ∈ name, Bare k) :
    Writes (Option.some ("[" ++ ".".intercalate name ++ "]\n")) [.header name] := by
  refine ⟨_, rfl, ?_, List.forall_mem_singleton.2 ⟨some, bare⟩⟩
  rw [List.flatMap_singleton, Line.chars, dotted, String.toList_append, String.toList_append, List.append_assoc]
  rfl

theorem writes_entries {entries : Entries} (plain : ∀ e ∈ entries, Bare e.1 ∧ ReadBack e.2) :
    List.Forall₂ (fun text line => Writes text [line]) ((entryTexts entries).map fun t => t.map (· ++ "\n"))
      (entries.map fun e => Line.entry e.1 e.2) := by
  induction entries with
  | nil => exact .nil
  | cons e entries ih =>
    obtain ⟨own, others⟩ := List.forall_mem_cons.1 plain
    rw [entryTexts, List.map_cons, List.map_cons, Option.map_map]
    exact .cons (writes_entry own.1 own.2) (ih others)

theorem intercalate_concat {name : List String} (some : name ≠ []) (k : String) :
    ".".intercalate (name ++ [k]) = ".".intercalate name ++ "." ++ k := by
  induction name with
  | nil => exact absurd rfl some
  | cons first name ih =>
    cases name with
    | nil =>
      rw [List.singleton_append, String.intercalate_cons_cons, String.intercalate_singleton,
        String.intercalate_singleton]
    | cons second name =>
      rw [List.cons_append, List.cons_append, String.intercalate_cons_cons, String.intercalate_cons_cons,
        ← List.cons_append, ih (List.cons_ne_nil _ _)]
      simp only [String.append_assoc]

/-- A name of bare keys is empty only if there is none. -/
theorem isEmpty_intercalate {name : List String} (bare : ∀ k ∈ name, Bare k) :
    (".".intercalate name).isEmpty = name.isEmpty := by
  cases name with
  | nil => rfl
  | cons k name =>
    obtain ⟨c, cs, first, -⟩ := dotted_cons bare (List.cons_ne_nil k name)
    rw [List.isEmpty_cons, ← Bool.not_eq_true, String.isEmpty_iff]
    intro same
    rw [dotted, same] at first
    cases first

/-- **A section is written** with its lines, if the sections in it are. -/
theorem writes_section {name : List String} {entries : Entries} {sections : List (String × Bool × Pending)}
    {inner : List (List Line)} (named : ∀ k ∈ name, Bare k) (plain : ∀ e ∈ inLine entries, Bare e.1 ∧ ReadBack e.2)
    (within : List.Forall₂
      (fun s lines => s.2.1 = false ∧ Bare s.1 ∧ Writes (s.2.2 (".".intercalate (name ++ [s.1])) false) lines)
      sections inner) :
    Writes (assembleSection (inLine entries) sections (".".intercalate name) false)
      (sectionLines name entries inner) := by
  have unnamed := isEmpty_intercalate named
  have alone : sections.isEmpty = inner.isEmpty := by
    cases within with
    | nil => rfl
    | cons _ _ => rfl
  have innerWritten : List.Forall₂ Writes
      (sections.map fun s =>
        s.2.2 (if (".".intercalate name).isEmpty then keyText s.1 else ".".intercalate name ++ "." ++ keyText s.1)
          s.2.1)
      inner := by
    refine List.forall₂_map_left_iff.2 (within.imp fun s lines => ?_)
    rintro ⟨single, bare, written⟩
    rw [single, keyText_bare bare, unnamed]
    cases name with
    | nil => rwa [List.nil_append, String.intercalate_singleton] at written
    | cons first name => rwa [intercalate_concat (List.cons_ne_nil _ _)] at written
  have headed : List.Forall₂ (fun text line => Writes text [line])
      (if !(".".intercalate name).isEmpty && (!(inLine entries).isEmpty || sections.isEmpty)
        then [some ("[" ++ ".".intercalate name ++ "]\n")] else [])
      (if !name.isEmpty && (!(inLine entries).isEmpty || inner.isEmpty) then [Line.header name] else []) := by
    rw [unnamed, alone]
    split
    · next shown =>
      rw [Bool.and_eq_true, Bool.not_eq_true', List.isEmpty_eq_false_iff] at shown
      exact .cons (writes_header shown.1 named) .nil
    · exact .nil
  obtain ⟨ownTexts, ownAll, sameEmpty, own⟩ := join_of_writes (List.rel_append headed (writes_entries plain))
  obtain ⟨innerTexts, innerAll, innerSpelled⟩ := allSome_of_writes innerWritten
  change ownTexts.isEmpty = (ownLines name entries inner.isEmpty).isEmpty at sameEmpty
  change Spelled _ (ownLines name entries inner.isEmpty) at own
  unfold assembleSection sectionLines
  dsimp only at ownAll ⊢
  rw [if_neg Bool.false_ne_true, ownAll, innerAll]
  refine ⟨_, rfl, spelled_intercalate (List.rel_append ?_ innerSpelled)⟩
  rw [sameEmpty]
  split
  · exact .nil
  · exact .cons own .nil

theorem writes_inner {entries : Entries} (tabular : Tabular entries) {name : List String} (named : ∀ k ∈ name, Bare k) :
    List.Forall₂
      (fun s lines => s.2.1 = false ∧ Bare s.1 ∧ Writes (s.2.2 (".".intercalate (name ++ [s.1])) false) lines)
      (sectionsOf entries) (innerLines name entries) := by
  induction tabular generalizing name with
  | nil => exact .nil
  | @plain k x rest _ _ plain _ _ ih =>
    have noSection : sectionsOf ((k, x) :: rest) = sectionsOf rest := by
      cases x with
      | obj inner => cases plain
      | arr items =>
        rw [sectionsOf, plain]
        rfl
      | _ => rfl
    have noLines : innerLines name ((k, x) :: rest) = innerLines name rest := by
      cases x with
      | obj inner => cases plain
      | _ => rfl
    rw [noSection, noLines]
    exact ih named
  | table bare _ own _ ihOwn ih =>
    have below := List.forall_mem_append.2 ⟨named, List.forall_mem_singleton.2 bare⟩
    rw [sectionsOf, innerLines, linesOf]
    refine .cons ⟨rfl, bare, ?_⟩ (ih named)
    rw [section?]
    exact writes_section below own.inLine_sound (ihOwn below)

/-- **A table is written** with its lines, each of which is read. -/
theorem toToml_lines {entries : Entries} (tabular : Tabular entries) :
    Writes (Data.toToml entries) (linesOf [] (.obj entries)) := by
  have named : ∀ k ∈ ([] : List String), Bare k := List.forall_mem_nil _
  have written := writes_section named tabular.inLine_sound (writes_inner tabular named)
  rw [Data.toToml, section?, linesOf]
  exact written

end ServerTrial.Toml
