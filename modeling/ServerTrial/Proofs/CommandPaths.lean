import ServerTrial.Proofs.Escapes
import ServerTrial.Proofs.PathText
import ServerTrial.Proofs.Skeletons

/-!
# Commands given as paths

A command of a case file that is a path is written out relative to the file, and what is written out is told from a
name by its slashes once more.

* `Path.IsBare`, `Path.slash_mem_toString_iff`: the paths that are written without a slash;
* `World.canRun_toString_of_not_isBare`, `World.canRun_toString_of_isBare`: the files that are asked for by the text of
  a path;
* `CaseTable.commands_exact`: those that are asked for by the commands of a case file.
-/

namespace ServerTrial

theorem Text.occurs_singleton_iff {c : Char} {cs : List Char} : Text.occurs [c] cs = true ↔ c ∈ cs := by
  induction cs with
  | nil => exact iff_of_false Bool.false_ne_true List.not_mem_nil
  | cons d ds ih => simp [Text.occurs, ih]

/-! ### Texts of paths -/

namespace Path

/-- A path is bare if nothing stands before or behind a slash in it: it is relative and has at most one component. -/
def IsBare (p : Path) : Prop := p.root = .here ∧ p.parts.length ≤ 1

instance (p : Path) : Decidable p.IsBare := inferInstanceAs (Decidable (_ ∧ _))

theorem slash_mem_intercalate_iff {parts : List String} (named : Named parts) :
    '/' ∈ ("/".intercalate parts).toList ↔ 1 < parts.length := by
  cases parts with
  | nil => simp
  | cons c rest =>
    cases rest with
    | nil => simpa using (named c List.mem_cons_self).2
    | cons d rest => simp [String.intercalate_cons_cons]

/-- **A path is written without a slash just if it is bare.** -/
theorem slash_mem_toString_iff {p : Path} (named : Named p.parts) : '/' ∈ p.toString.toList ↔ ¬ p.IsBare := by
  obtain ⟨root, parts⟩ := p
  unfold toString IsBare
  dsimp only at named ⊢
  split
  · next none => simp [none]
  · rw [String.toList_append, List.mem_append, slash_mem_intercalate_iff named]
    cases root <;> simp [rootText]

theorem isBare_join {p q : Path} :
    (p.join q).IsBare ↔ p.root = .here ∧ q.root = .here ∧ p.parts.length + q.parts.length ≤ 1 := by
  unfold join isAbsolute IsBare
  split
  · next absolute =>
    have other : q.root ≠ .here := bne_iff_ne.1 absolute
    simp [other]
  · next relative =>
    have here : q.root = .here := by simpa using relative
    simp [here]

theorem proper_parent_join {p q : Path} (base : Proper p.parts) (given : Proper q.parts) :
    Proper (p.parent.join q).parts := by
  unfold join
  split
  · exact given
  · exact (base.sublist (List.dropLast_subset _)).append given

end Path

/-! ### Files that are asked for -/

namespace World

section Variables

variable (w : World) (name : String) (value : Option String)

/-! The environment has no part in where a path leads. -/

theorem at?_setVariable (p : Place) : (w.setVariable name value).at? p = w.at? p := by
  cases value <;> rfl

theorem walk_setVariable (p : Place) (parts : List String) :
    (w.setVariable name value).walk p parts = w.walk p parts := by
  induction parts generalizing p with
  | nil => rfl
  | cons c rest ih => simp only [walk, follow, at?_setVariable, ih]

theorem probe_setVariable (p : Path) : (w.setVariable name value).probe p = w.probe p := by
  have start' : (w.setVariable name value).start p = w.start p := by cases value <;> rfl
  simp only [probe, locate, start', walk_setVariable, at?_setVariable]

end Variables

variable {p : Path}

theorem isRunnable_iff (w : World) :
    w.isRunnable p = true ↔ ∃ content, w.probe p = .ok (some (.file content true)) := by
  unfold isRunnable find?
  cases w.probe p with
  | error e => simp [Except.toOption]
  | ok found =>
    cases found with
    | none => simp [Except.toOption]
    | some n => cases n <;> simp [Except.toOption]

/-- By the text of a path that is not bare its file is asked for, and nothing else. -/
theorem canRun_toString_of_not_isBare (proper : Path.Proper p.parts) (slashed : ¬ p.IsBare) (w : World) :
    (w.canRun p.toString = .ok true ↔ w.isRunnable p = true) ∧
      ∀ value, (w.setVariable "PATH" value).canRun p.toString = w.canRun p.toString := by
  have slash : p.toString.toList.contains '/' = true :=
    List.contains_iff_mem.2 ((Path.slash_mem_toString_iff proper.named).2 slashed)
  simp only [canRun, if_pos slash, Path.ofString_toString proper, probe_setVariable, implies_true, and_true,
    isRunnable_iff]
  cases w.probe p with
  | error e => simp
  | ok found =>
    cases found with
    | none => simp
    | some n => cases n <;> simp

/-- By the text of a bare path its file is asked for in every directory of the search path, and nowhere else. -/
theorem canRun_toString_of_isBare (proper : Path.Proper p.parts) (bare : p.IsBare) (w : World) :
    w.canRun p.toString = .ok true ↔ p.parts ≠ [] ∧ ∃ d ∈ w.searched, w.isRunnable (d.join p) = true := by
  have plain : p.toString.toList.contains '/' ≠ true := fun slash =>
    (Path.slash_mem_toString_iff proper.named).1 (List.contains_iff_mem.1 slash) bare
  rw [canRun, if_neg plain, Path.ofString_toString proper]
  simp [Path.child, Path.ofString_toString proper]

end World

/-! ### Commands of a case file -/

namespace CaseTable

/-- A command is given as a path: it has a slash or a dot in front, and asks for no one's home directory. -/
structure IsPath (command : String) : Prop where
  marked : '/' ∈ command.toList ∨ command.toList.head? = some '.'
  homeless : ∀ part ∈ (Path.ofString command).parts, part.toList.head? ≠ some '~'

theorem IsPath.command_eq {command : String} (path : IsPath command) (w : World) (base : Path) :
    CaseTable.command w base (.str command) = .ok (base.join (Path.ofString command)).toString := by
  rw [command_str w base path.homeless, if_pos]
  rw [Bool.or_eq_true, decide_eq_true_iff]
  exact path.marked.imp_left Text.occurs_singleton_iff.2

section Cases

variable {w : World} {path : Path} {entries : List (String × Data)}

/-- The commands of a case are those of its table. -/
theorem command_of_caseOf {c : Case} (read : caseOf w path entries = .ok c) :
    command w path.parent ((Data.find? "server" entries).getD .null) = .ok c.server ∧
      ∀ d, Data.find? "editor" entries = some d → command w path.parent d = .ok c.editor := by
  unfold caseOf at read
  obtain ⟨server, given, read⟩ := bind_eq_ok read
  obtain ⟨source, -, read⟩ := bind_eq_ok read
  obtain ⟨others, -, read⟩ := bind_eq_ok read
  obtain ⟨startup, -, read⟩ := bind_eq_ok read
  obtain ⟨cursor, -, read⟩ := bind_eq_ok read
  obtain ⟨own, named, read⟩ := bind_eq_ok read
  obtain ⟨limit, -, read⟩ := bind_eq_ok read
  obtain ⟨testId, -, read⟩ := bind_eq_ok read
  obtain ⟨timeout, -, read⟩ := bind_eq_ok read
  obtain ⟨cleanup, -, read⟩ := bind_eq_ok read
  obtain ⟨editor, chosen, read⟩ := bind_eq_ok read
  cases read
  refine ⟨mapError_eq_ok given, fun d present => ?_⟩
  -- an editor that is named is taken, the one of the settings is left
  dsimp only at named
  rw [present] at named
  obtain ⟨command', found, same⟩ := bind_eq_ok named
  cases same
  cases chosen
  exact mapError_eq_ok found

theorem caseOf_of_ofEntries {f : CaseFile} (read : CaseFile.ofEntries w path entries = .ok f) :
    caseOf w path entries = .ok f.case := by
  unfold CaseFile.ofEntries at read
  split at read
  · cases read
  · obtain ⟨r, -, read⟩ := bind_eq_ok read
    obtain ⟨c, described, read⟩ := bind_eq_ok read
    obtain ⟨expectation, -, read⟩ := bind_eq_ok read
    obtain ⟨inputs, -, read⟩ := bind_eq_ok read
    split at read
    · cases read
    · cases read
      exact described

/-- Commands given as paths are kept as the texts of the paths relative to the file. -/
theorem IsPath.commands_eq {command : String} (given : IsPath command) {f : CaseFile}
    (read : CaseFile.ofEntries w path entries = .ok f) :
    let text := (path.parent.join (Path.ofString command)).toString
    (Data.find? "server" entries = some (.str command) → f.case.server = text) ∧
      (Data.find? "editor" entries = some (.str command) → f.case.editor = text) := by
  intro text
  obtain ⟨server, editor⟩ := command_of_caseOf (caseOf_of_ofEntries read)
  constructor
  · intro present
    rw [present] at server
    exact Except.ok.inj (server.symm.trans (given.command_eq w path.parent))
  · intro present
    exact Except.ok.inj ((editor _ present).symm.trans (given.command_eq w path.parent))

/-- A case that can be tried asks for its commands. -/
theorem canRun_of_validate {c : Case} (sound : c.validate w = .ok ()) :
    w.canRun c.editor = .ok true ∧ w.canRun c.server = .ok true := by
  unfold Case.validate at sound
  obtain ⟨_, editor, sound⟩ := bind_eq_ok sound
  obtain ⟨_, server, -⟩ := bind_eq_ok sound
  exact ⟨Trial.canRun_of_demand editor, Trial.canRun_of_demand server⟩

end Cases

/-- **Commands given as paths.**  Such a command of a case file becomes the text of the path relative to the file, in
every case that is read from it, and by that text it is checked and its editor started.  If the path is not bare the
checks pass just if its file can be run, and the search path has no part in them.  If it is bare, which it is if both the
file and the command are relative and together lead over at most one component, its text is a name that is searched
for. -/
theorem commands_exact {command : String} (given : IsPath command) (file : String) :
    let path := Path.ofString file
    let target := path.parent.join (Path.ofString command)
    let text := target.toString
    (∀ w, CaseTable.command w path.parent (.str command) = .ok text) ∧
    (∀ w entries f, CaseFile.ofEntries w path entries = .ok f →
      (Data.find? "server" entries = some (.str command) →
        f.case.server = text ∧ ∀ v, f.case.validate v = .ok () → v.canRun text = .ok true) ∧
      (Data.find? "editor" entries = some (.str command) →
        f.case.editor = text ∧ (∀ v, f.case.validate v = .ok () → v.canRun text = .ok true) ∧
          ∀ l source, (Trial.editorCommand f.case l source).head? = some text)) ∧
    (target.IsBare ↔ path.root = .here ∧ (Path.ofString command).root = .here ∧
      path.parent.parts.length + (Path.ofString command).parts.length ≤ 1) ∧
    (¬ target.IsBare → '/' ∈ text.toList ∧ ∀ v : World, (v.canRun text = .ok true ↔ v.isRunnable target = true) ∧
      ∀ value, (v.setVariable "PATH" value).canRun text = v.canRun text) ∧
    (target.IsBare → '/' ∉ text.toList ∧ ∀ v : World,
      v.canRun text = .ok true ↔ target.parts ≠ [] ∧ ∃ d ∈ v.searched, v.isRunnable (d.join target) = true) := by
  intro path target text
  have proper : Path.Proper target.parts :=
    Path.proper_parent_join (Path.proper_ofString file) (Path.proper_ofString command)
  have slash := Path.slash_mem_toString_iff proper.named
  refine ⟨fun w => given.command_eq w path.parent, fun w entries f read => ?_, Path.isBare_join, fun slashed => ?_,
    fun bare => ?_⟩
  · obtain ⟨server, editor⟩ := given.commands_eq read
    constructor
    · intro present
      have same : f.case.server = text := server present
      exact ⟨same, fun v sound => same ▸ (canRun_of_validate sound).2⟩
    · intro present
      have same : f.case.editor = text := editor present
      exact ⟨same, fun v sound => same ▸ (canRun_of_validate sound).1, fun l source => congrArg some same⟩
  · exact ⟨slash.2 slashed, World.canRun_toString_of_not_isBare proper slashed⟩
  · exact ⟨fun inside => slash.1 inside bare, World.canRun_toString_of_isBare proper bare⟩

/-- A program by one name, in the directory of the search path or in the working directory. -/
def programWorld (place : Place) : World :=
  ⟨[(["bin"], .directory), (["cases"], .directory), (place ++ ["server"], .file [] true)], [("PATH", "/bin")],
    ["cases"], ⟨.slash, ["tmp"]⟩, "1"⟩

/-- A case file that asks for a program in its own directory, as the server and as the editor. -/
def besideEntries : List (String × Data) :=
  [("kind", .str "document_symbol"), ("server", .str "./server"), ("editor", .str "./server"), ("test_id", .str "1"),
    ("timeout", .float 1), ("cleanup", .bool true), ("expect", .str "none"),
    ("source", .obj [("path", .str "a.b"), ("contents", .str "")])]

theorem isPath_beside : IsPath "./server" := ⟨by decide, by decide⟩

/-- The program beside a case file is run without a search path if the file is given by more than its name. -/
theorem commands_exact_beside :
    let w := programWorld ["cases"]
    IsPath "./server" ∧ ∃ f, CaseFile.ofEntries w (Path.ofString "/cases/case.toml") besideEntries = .ok f ∧
      f.case.server = "/cases/server" ∧ f.case.editor = "/cases/server" ∧
      w.canRun f.case.server = .ok true ∧ (w.setVariable "PATH" none).canRun f.case.server = .ok true := by
  intro w
  have target : (Path.ofString "/cases/case.toml").parent.join (Path.ofString "./server") =
      ⟨.slash, ["cases", "server"]⟩ := by decide
  have text : (Path.mk .slash ["cases", "server"]).toString = "/cases/server" := rfl
  obtain ⟨taken, commands, -, slashed, -⟩ := commands_exact isPath_beside "/cases/case.toml"
  rw [target, text] at taken commands slashed
  have read : ∃ f, CaseFile.ofEntries w (Path.ofString "/cases/case.toml") besideEntries = .ok f := by
    have described : caseOf w (Path.ofString "/cases/case.toml") besideEntries =
        .ok ⟨"/cases/server", ⟨"a.b", .str ""⟩, none, [], .immediate, 1, true, "/cases/server", "1"⟩ := by
      rfl
    unfold CaseFile.ofEntries
    rw [described]
    exact ⟨_, rfl⟩
  obtain ⟨f, read⟩ := read
  obtain ⟨server, editor⟩ := commands w _ f read
  obtain ⟨-, asked⟩ := slashed (by decide)
  obtain ⟨runs, apart⟩ := asked w
  have found : w.canRun "/cases/server" = .ok true := runs.2 rfl
  refine ⟨isPath_beside, f, read, (server rfl).1, (editor rfl).1, ?_, ?_⟩
  · rw [(server rfl).1, found]
  · rw [(server rfl).1, apart, found]

/-- A server beside a case file that is given by its name alone is not run, and one of its name on the search path is. -/
theorem command_bare_searched :
    let path := Path.ofString "case.toml"
    let target := path.parent.join (Path.ofString "./server")
    IsPath "./server" ∧ (∀ w, CaseTable.command w path.parent (.str "./server") = .ok "server") ∧
      ((programWorld ["cases"]).isRunnable target = true ∧ (programWorld ["cases"]).canRun "server" = .ok false) ∧
      (programWorld ["bin"]).isRunnable target = false ∧ (programWorld ["bin"]).canRun "server" = .ok true := by
  intro path target
  have joined : target = ⟨.here, ["server"]⟩ := by decide
  have text : (Path.mk .here ["server"]).toString = "server" := rfl
  rw [joined]
  refine ⟨isPath_beside, fun w => ?_, ⟨rfl, rfl⟩, rfl, rfl⟩
  rw [isPath_beside.command_eq w path.parent, ← text, ← joined]

end CaseTable

end ServerTrial
