import ServerTrial.Proofs.Breaks
import ServerTrial.Proofs.DeclaredInputs

/-!
# Failures that escape

* `Trial.Escapes`: how a run may end with a failure that is no report;
* `Trial.escapes`: with inputs of the declared types and the default settings, no such failure comes otherwise.
-/

namespace ServerTrial

namespace Trial

variable {c : Case} {r : Request} {e : Expectation} {given : Inputs} {editor : Editor}

/-! ### Checks -/

/-- A command is asked for whose path is longer than any file has. -/
inductive BadCommand (c : Case) (w : World) : Fault → Prop
  | editor {x : Fault} (long : w.canRun c.editor = .error x) : BadCommand c w x
  | server {x : Fault} (runs : w.canRun c.editor = .ok true) (long : w.canRun c.server = .error x) : BadCommand c w x

theorem demand_eq_error_iff {w : World} {command : String} {g f : Failure} (report : g.isReport = true)
    (told : f.isReport = false) :
    Case.demand w command g = .error f ↔ ∃ x, w.canRun command = .error x ∧ f = .fault x := by
  have other : g ≠ f := by
    rintro rfl
    exact Bool.false_ne_true (told.symm.trans report)
  unfold Case.demand
  cases w.canRun command with
  | error x => simp [eq_comm]
  | ok runs => cases runs <;> simp [other]

theorem canRun_of_demand {w : World} {command : String} {g : Failure} (h : Case.demand w command g = .ok ()) :
    w.canRun command = .ok true := by
  unfold Case.demand at h
  split at h
  · assumption
  · cases h
  · cases h

/-- The other checks of a case fail with reports. -/
theorem isReport_of_places {w : World} {f : Failure}
    (h : (do
      c.files.forM fun f => ((c.layout w).source f.path).map fun _ => ()
      c.fileExtension.map fun _ => () : Except Failure Unit) = .error f) : f.isReport = true := by
  rcases bind_eq_error_iff.1 h with place | ⟨_, -, name⟩
  · obtain ⟨-, file, -, -, -, failed⟩ := forM_eq_error_iff.1 place
    cases placed : (c.layout w).source file.path with
    | ok p => rw [placed] at failed; cases failed
    | error g =>
      rw [placed] at failed
      cases failed
      rw [Layout.source_error placed]
      rfl
  · unfold Case.fileExtension at name
    dsimp only at name
    split at name
    · cases name
      rfl
    · split at name <;> cases name
      rfl

theorem validate_eq_error_iff {w : World} {f : Failure} (told : f.isReport = false) :
    c.validate w = .error f ↔ ∃ x, BadCommand c w x ∧ f = .fault x := by
  have editor : Case.demand w c.editor (.editorNotExecutable c.editor) = .error f ↔ _ := demand_eq_error_iff rfl told
  have server : Case.demand w c.server (.serverNotExecutable c.server) = .error f ↔ _ := demand_eq_error_iff rfl told
  unfold Case.validate
  rw [bind_eq_error_iff, editor]
  constructor
  · rintro (⟨x, long, rfl⟩ | ⟨_, runs, later⟩)
    · exact ⟨x, .editor long, rfl⟩
    · rcases bind_eq_error_iff.1 later with first | ⟨_, -, rest⟩
      · obtain ⟨x, long, rfl⟩ := server.1 first
        exact ⟨x, .server (canRun_of_demand runs) long, rfl⟩
      · rw [isReport_of_places rest] at told
        cases told
  · rintro ⟨x, long | ⟨runs, long⟩, rfl⟩
    · exact .inl ⟨x, long, rfl⟩
    · refine .inr ⟨(), ?_, bind_eq_error_iff.2 (.inl (server.2 ⟨x, long, rfl⟩))⟩
      rw [Case.demand, runs]

/-! ### Runs -/

/-- How a run may end with a failure that is no report. -/
inductive Escapes (c : Case) (r : Request) (e : Expectation) (given : Inputs) (editor : Editor) (s : Session) :
    Failure → Prop
  | inputs {x : Fault} (bad : r.BadInputs given x) : Escapes c r e given editor s (.fault x)
  | command {is : List Injection} {x : Fault} (sent : r.injections c s.world e given = .ok is)
      (cursor : r.demandCursor c = .ok ()) (bad : BadCommand c s.world x) : Escapes c r e given editor s (.fault x)
  | cleanup {is : List Injection} {x : Fault} (passed : checks c r e given s.world = .ok is)
      (removes : c.cleanup = true) (flaw : World.flaw? (c.layout s.world).root = some x) :
      Escapes c r e given editor s (.fault x)
  | breaks {is : List Injection} {f : Failure} (passed : checks c r e given s.world = .ok is)
      (kept : c.cleanup = true → World.flaw? (c.layout s.world).root = none)
      (bad : Breaks c (c.layout s.world) r e is editor s f) : Escapes c r e given editor s f

theorem isReport_of_demandCursor {f : Failure} (h : r.demandCursor c = .error f) : f.isReport = true := by
  unfold Request.demandCursor at h
  split at h
  · cases h
    rfl
  · cases h

theorem Escapes.eq_fault {s : Session} {f : Failure} (h : Escapes c r e given editor s f) :
    f = .bothMarkers c.testId ∨ ∃ x, f = .fault x := by
  cases h with
  | breaks _ _ bad =>
    cases bad with
    | files _ bad => exact .inr bad.eq_fault
    | watch _ _ _ bad =>
      cases bad
      exact .inr ⟨_, rfl⟩
    | outcome _ _ _ _ bad =>
      cases bad with
      | bothMarkers _ _ => exact .inl rfl
      | derailed _ => exact .inr ⟨_, rfl⟩
    | _ => exact .inr ⟨_, rfl⟩
  | _ => exact .inr ⟨_, rfl⟩

end Trial

end ServerTrial
