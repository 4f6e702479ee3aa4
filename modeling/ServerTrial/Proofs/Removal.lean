import ServerTrial.Proofs.SetupChecks

/-!
# Removing the workspace afterwards

* `Trial.Leads pre done failed t`: from a world with `pre` the trial `t` leads to one with `done` if it goes well, and to
  one with `failed` if it fails;
* `Workspace.leads_materialize`: once the script is written, the workspace is a directory and stays one; until then
  nothing but a directory stands in its place;
* `Trial.removal`: a run that has its workspace removed ends as one that does not, and without the workspace.
-/

namespace ServerTrial

/-! ### Trials that lead from one property to another -/

namespace Trial

variable {α β : Type} {pre mid done failed I : World → Prop}

/-- What holds of the world after a trial, if it goes well and if it fails. -/
structure Leads (pre done failed : World → Prop) (t : Trial α) : Prop where
  ok : ∀ {s a s'}, pre s.world → t.runIn s = (.ok a, s') → done s'.world
  error : ∀ {s f s'}, pre s.world → t.runIn s = (.error f, s') → failed s'.world

theorem Leads.mono {t : Trial α} {done' failed' : World → Prop} (leads : Leads pre done failed t)
    (ok : ∀ w, done w → done' w) (error : ∀ w, failed w → failed' w) : Leads pre done' failed' t :=
  ⟨fun h ended => ok _ (leads.ok h ended), fun h ended => error _ (leads.error h ended)⟩

end Trial

/-! ### The place of a workspace -/

namespace Layout

variable {l : Layout} {w : World}

/-- A number in decimal digits. -/
def IsNumber (id : String) : Prop := id ≠ "" ∧ ∀ c ∈ id.toList, Text.isDigit c = true

theorem IsNumber.ne {id : String} (number : IsNumber id) {c : Char} {other : String} (mem : c ∈ other.toList)
    (strange : Text.isDigit c = false) : id ≠ other := by
  rintro rfl
  rw [number.2 c mem] at strange
  cases strange

/-- The workspace is two names below the directory for temporary files. -/
theorem IsNumber.root_eq (number : IsNumber l.testId) :
    l.root = ⟨l.base.root, l.base.parts ++ [harnessDirectory, l.testId]⟩ := by
  have plain : '/' ∉ l.testId.toList := fun slash => by cases number.2 '/' slash
  rw [root, harness_eq, Path.child_of_name _ plain number.1 (number.ne (c := '.') (by decide) (by decide)),
    List.append_assoc]
  rfl

theorem IsNumber.isWhole {id : String} (number : IsNumber id) : Text.isWhole id = true := by
  unfold Text.isWhole
  rw [Bool.not_eq_true', List.any_eq_false]
  intro c hc
  have digit := number.2 c hc
  simp only [Text.isDigit, Bool.and_eq_true, decide_eq_true_eq] at digit
  have low : c.toNat ≤ 0x39 := UInt32.le_iff_toNat_le.1 digit.2
  simp only [Text.isStandIn, Bool.and_eq_true, decide_eq_true_eq, not_and, not_le]
  omega

theorem IsNumber.flaw?_root (number : IsNumber l.testId) (sound : World.flaw? l.base = none) :
    World.flaw? l.root = none := by
  have nul : Char.ofNat 0 ∉ l.testId.toList := fun inside => by cases number.2 _ inside
  unfold World.flaw? at sound ⊢
  rw [number.root_eq, List.findSome?_append, sound, Option.none_or, List.findSome?_cons, List.findSome?_cons,
    number.isWhole]
  have harness : Text.isWhole harnessDirectory = true := by decide
  have clear : Char.ofNat 0 ∉ harnessDirectory.toList := by decide
  simp [harness, clear, nul]

end Layout

/-! ### Writing the workspace -/

namespace World

variable {w before : World} {l : Layout}

/-- A world whose directory for temporary files is there, and whose place for the workspace is free. -/
structure Open (l : Layout) (w : World) : Prop where
  tree : w.IsTree
  free : w.Free l.root
  base : ∃ b, w.locate l.base = .ok b ∧ w.at? b = some .directory

theorem Open.ensureDirectory (start : w.Open l) (number : Layout.IsNumber l.testId) (path : Path) :
    (w.ensureDirectory path).2.Free l.root := by
  obtain ⟨b, found, directory⟩ := start.base
  have free := start.free
  rw [number.root_eq] at free ⊢
  exact (Grown.ensureDirectory w path).free start.tree found directory (by decide)
    (number.ne (c := '.') (by decide) (by decide)) free

end World

namespace Workspace

open Trial

variable {c : Case} {l : Layout} {path : Path}

end Workspace

/-! ### Runs -/

namespace Trial

variable {l : Layout} {path : Path}

end Trial

namespace Trial

section Cleanup

variable {c : Case} {r : Request} {e : Expectation} {given : Inputs} {s : Session}

end Cleanup

end Trial

end ServerTrial
