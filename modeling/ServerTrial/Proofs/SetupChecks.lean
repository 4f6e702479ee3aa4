import ServerTrial.Proofs.Confinement
import ServerTrial.Proofs.TreeShape
import ServerTrial.Proofs.Verdict
import ServerTrial.Proofs.Assembly

/-!
# Setup checks

* `Failure.isPrecondition`: the failures that a look at the case, the request and the commands tells;
* `Trial.Spares t`: the trial `t` never ends with one of these;
* `Trial.checks`: what is looked at before anything is changed;
* `Trial.spares_perform`: a case that has been found valid meets none of them again, though the script and the workspace
  ask for extension and paths once more;
* `Trial.precondition_untouched`: hence a run that ends with one of them has changed nothing.
-/

namespace ServerTrial

/-- Failures that are told beforehand: there is no cursor, a command cannot be run, a file has no place in the workspace
or the source no extension that could be used. -/
def Failure.isPrecondition : Failure → Bool
  | missingExtension _ | invalidExtension _ | invalidPath _ | noCursor _ | serverNotExecutable _
  | editorNotExecutable _ => true
  | _ => false

/-! ### Results without such a failure -/

/-- A result that is no failure of a precondition. -/
def Clears {α : Type} (x : Except Failure α) : Prop := ∀ f, x = .error f → f.isPrecondition = false

section Clears

variable {α β : Type}

theorem clears_ok (a : α) : Clears (.ok a) := by
  intro f h
  cases h

theorem clears_error {f : Failure} (h : f.isPrecondition = false) : Clears (.error f : Except Failure α) := by
  rintro g ⟨⟩
  exact h

theorem clears_bind {x : Except Failure α} {next : α → Except Failure β} (first : Clears x)
    (later : ∀ a, x = .ok a → Clears (next a)) : Clears (x >>= next) := by
  cases x with
  | error f => exact clears_error (first f rfl)
  | ok a => exact later a rfl

theorem clears_fault (x : Except Fault α) : Clears (x.mapError Failure.fault) := by
  cases x with
  | error e => exact clears_error rfl
  | ok a => exact clears_ok a

theorem clears_of_ok {x : Except Failure α} {a : α} (h : x = .ok a) : Clears x := by
  rw [h]
  exact clears_ok a

end Clears

/-! ### Trials without such a failure -/

namespace Trial

variable {α β : Type}

/-- However it starts, the trial does not end with the failure of a precondition. -/
def Spares (t : Trial α) : Prop := ∀ s, Clears (t.runIn s).1

theorem spares_pure (a : α) : Spares (pure a) := fun _ => clears_ok a

theorem spares_throw {f : Failure} (h : f.isPrecondition = false) : Spares (throw f : Trial α) := fun _ => clears_error h

theorem spares_ofExcept {x : Except Failure α} (h : Clears x) : Spares (ofExcept x) := fun _ => h

theorem spares_ofFault (x : Except Fault α) : Spares (ofFault x) := spares_ofExcept (clears_fault x)

theorem spares_world : Spares world := fun _ => clears_ok _

theorem spares_modify (f : Session → Session) : Spares (modify f) := fun _ => clears_ok _

theorem spares_bind {t : Trial α} {next : α → Trial β} (first : Spares t) (later : ∀ a, Spares (next a)) :
    Spares (t >>= next) := by
  intro s
  rw [runIn_bind]
  cases result : t.runIn s with
  | mk x s' =>
    cases x with
    | error f => exact clears_error (first s f (by rw [result]))
    | ok a => exact later a s'

theorem spares_change {ε : Type} {failure : ε → Failure} (other : ∀ e, (failure e).isPrecondition = false)
    (f : World → Except ε Unit × World) : Spares (change failure f) := by
  intro s
  change Clears ((f s.world).1.mapError failure)
  cases (f s.world).1 with
  | error e => exact clears_error (other e)
  | ok u => exact clears_ok u

theorem spares_forIn {γ : Type} {xs : List γ} {f : γ → PUnit → Trial (ForInStep PUnit)}
    (step : ∀ x ∈ xs, ∀ u, Spares (f x u)) (u : PUnit) : Spares (forIn xs u f) := by
  induction xs generalizing u with
  | nil => exact spares_pure u
  | cons x xs ih =>
    rw [List.forIn_cons]
    refine spares_bind (step x List.mem_cons_self u) fun r => ?_
    cases r with
    | done u => exact spares_pure u
    | yield u => exact ih (fun y hy => step y (List.mem_cons_of_mem x hy)) u

/-- What is done afterwards decides only if it fails. -/
theorem runIn_followedBy (t : Trial α) (last : Trial Unit) (s : Session) :
    (t.followedBy last).runIn s =
      match last.runIn (t.runIn s).2 with
      | (.ok _, s') => ((t.runIn s).1, s')
      | (.error f, s') => (.error f, s') := by
  unfold followedBy
  rw [runIn_bind]
  change (last >>= fun _ => ofExcept (t.runIn s).1).runIn (t.runIn s).2 = _
  rw [runIn_bind]
  cases last.runIn (t.runIn s).2 with
  | mk result s' => cases result <;> rfl

theorem spares_followedBy {t : Trial α} {last : Trial Unit} (first : Spares t) (later : Spares last) :
    Spares (t.followedBy last) := by
  intro s
  rw [runIn_followedBy]
  have after := later (t.runIn s).2
  cases ended : last.runIn (t.runIn s).2 with
  | mk x s' =>
    rw [ended] at after
    cases x with
    | ok _ => exact first s
    | error f => exact clears_error (after f rfl)

end Trial

/-! ### What a valid case has -/

namespace Case

variable {c : Case} {w : World}

/-- In a valid case every file has a place in the workspace, and the source has an extension. -/
theorem validate_eq_ok (valid : c.validate w = .ok ()) :
    (∀ f ∈ c.files, ∃ p, (c.layout w).source f.path = .ok p) ∧ ∃ extension, c.fileExtension = .ok extension := by
  unfold validate at valid
  obtain ⟨_, -, valid⟩ := bind_eq_ok valid
  obtain ⟨_, -, valid⟩ := bind_eq_ok valid
  obtain ⟨_, placed, named⟩ := bind_eq_ok valid
  constructor
  · intro f hf
    have own := forM_eq_ok placed f hf
    cases place : (c.layout w).source f.path with
    | error e => rw [place] at own; cases own
    | ok p => exact ⟨p, rfl⟩
  · cases extension : c.fileExtension with
    | error e => rw [extension] at named; cases named
    | ok text => exact ⟨text, rfl⟩

/-- So the script, which asks for them again, is not refused for them. -/
theorem clears_script {l : Layout} (placed : ∃ p, l.source c.source.path = .ok p)
    (named : ∃ extension, c.fileExtension = .ok extension) (r : Request) (is : List Injection) :
    Clears (c.script l r is) := by
  obtain ⟨p, place⟩ := placed
  obtain ⟨extension, name⟩ := named
  unfold script substitutions
  rw [place, name]
  refine clears_bind (clears_ok p) fun _ _ => clears_bind (clears_fault _) fun _ _ =>
    clears_bind (clears_fault _) fun _ _ => clears_bind ?_ fun _ _ => clears_ok _
  exact clears_bind (clears_ok extension) fun _ _ => clears_bind (clears_fault _) fun _ _ => clears_ok _

end Case

/-! ### Outcomes -/

theorem Expectation.clears_judge (r : Request) (testId : String) (e : Expectation) (reply : Value) :
    Clears (e.judge r testId reply) := by
  by_cases listed : ∃ items, e = .containing items
  · obtain ⟨items, rfl⟩ := listed
    refine clears_bind (clears_fault _) fun missing _ => ?_
    split
    · exact clears_ok _
    · exact clears_error rfl
  · rw [judge_eq fun items h => listed ⟨items, h⟩]
    refine clears_bind (clears_fault _) fun _ _ => clears_bind (clears_fault _) fun _ _ => ?_
    split
    · exact clears_ok _
    · split <;> exact clears_error rfl

namespace Outcome

variable (c : Case) (r : Request) (w : World) (l : Layout) (e : Expectation)

theorem clears_marked (m : Marker) : Clears (marked w l m) := by
  unfold marked
  cases w.present (l.marker m) with
  | error e => exact clears_error rfl
  | ok there => exact clears_ok there

theorem clears_readReply : Clears (readReply c w l) := by
  unfold readReply
  split
  · exact clears_error rfl
  · cases Utf8.decode _ with
    | error f => exact clears_error rfl
    | ok text => exact clears_ok text

theorem clears_silence : Clears (silence c w l) := by
  unfold silence
  refine clears_bind (clears_marked w l _) fun late _ => ?_
  split
  · exact clears_error rfl
  · refine clears_bind (clears_fault _) fun error _ => ?_
    dsimp only
    split <;> exact clears_error rfl

theorem clears_judgeReply (spellings : Except Fault (List String)) (raw : String) :
    Clears (judgeReply c r spellings e raw) := by
  by_cases nothing : e = .nothing
  · unfold judgeReply
    rw [if_pos (by rw [nothing]; rfl)]
    refine clears_bind (clears_fault _) fun empty _ => ?_
    split
    · exact clears_ok _
    · exact clears_bind (clears_fault _) fun _ _ => clears_error rfl
  · rw [judgeReply_of_some nothing]
    split
    · exact clears_bind (clears_fault _) fun _ _ => e.clears_judge r c.testId _
    · split <;> exact clears_error rfl

/-- No outcome is the failure of a precondition. -/
theorem clears_resolve : Clears (resolve c r w l e) := by
  unfold resolve
  refine clears_bind (clears_marked w l _) fun empty _ => clears_bind (clears_marked w l _) fun results _ => ?_
  split
  · exact clears_error rfl
  · split
    · exact clears_error rfl
    · exact clears_ok _
  · exact clears_silence c w l
  · exact clears_bind (clears_readReply c w l) fun raw _ => clears_judgeReply c r e _ raw

end Outcome

/-! ### Runs -/

namespace Workspace

open Trial

variable {c : Case} {l : Layout}

theorem isPrecondition_refused (c : Case) (x : Fault) : (refused c x).isPrecondition = false := by
  cases x <;> rfl

theorem spares_demandSound (p : Path) : Spares (demandSound p) := by
  unfold demandSound
  split
  · exact spares_throw rfl
  · exact spares_pure ()

theorem spares_ensureDirectory (p : Path) : Spares (ensureDirectory c p) :=
  spares_bind (spares_demandSound p) fun _ => spares_change (fun _ => isPrecondition_refused c _) _

theorem spares_storeText (p : Path) (text : String) : Spares (storeText c p text) :=
  spares_bind (spares_demandSound p) fun _ => spares_change (isPrecondition_refused c) _

theorem spares_writeSource {f : SourceFile} (placed : ∃ p, l.source f.path = .ok p) : Spares (writeSource c l f) := by
  obtain ⟨p, place⟩ := placed
  refine spares_bind (spares_ofExcept (clears_of_ok place)) fun p => spares_bind (spares_ensureDirectory _) fun _ => ?_
  dsimp only
  split
  · exact spares_bind (spares_storeText _ _) fun _ => spares_pure _
  · exact spares_bind (spares_throw rfl) fun _ => spares_pure _

/-- Files that have a place are not refused for it when they are written. -/
theorem spares_materialize (placed : ∀ f ∈ c.files, ∃ p, l.source f.path = .ok p) (script : String) :
    Spares (materialize c l script) := by
  obtain ⟨source, others⟩ := List.forall_mem_cons.1 placed
  unfold materialize
  refine spares_bind (spares_ensureDirectory _) fun _ => spares_bind ?_ fun _ =>
    spares_bind (spares_storeText _ _) fun _ => spares_bind (spares_writeSource source) fun _ =>
    spares_bind ?_ fun _ => spares_pure _
  · refine spares_forIn (fun m _ _ => ?_) _
    exact spares_bind (spares_change (fun _ => isPrecondition_refused c _) _) fun _ => spares_pure _
  · refine spares_forIn (fun f hf _ => ?_) _
    exact spares_bind (spares_writeSource (others f hf)) fun _ => spares_pure _

theorem spares_cleanup (l : Layout) : Spares (cleanup l) :=
  spares_bind (spares_demandSound _) fun _ => spares_modify _

end Workspace

namespace Trial

theorem spares_supervise (c : Case) (l : Layout) (source : Path) (interval : Float) (e : Editor) :
    Spares (supervise c l source interval e) := by
  unfold supervise enter exit
  refine spares_bind (spares_modify _) fun _ => ?_
  split
  · exact spares_bind (spares_modify _) fun _ => spares_throw rfl
  · refine spares_bind (spares_modify _) fun _ => ?_
    dsimp only
    refine spares_bind (spares_modify _) fun _ => ?_
    split
    · refine spares_bind spares_world fun _ => spares_bind (spares_ofFault _) fun _ => ?_
      split
      · exact spares_bind (spares_throw rfl) fun _ => spares_throw rfl
      · exact spares_throw rfl
    · exact spares_pure ()

/-- **What has been checked is not refused later.** -/
theorem spares_perform {c : Case} {w : World} (valid : c.validate w = .ok ()) (r : Request) (e : Expectation)
    (is : List Injection) (editor : Editor) : Spares (perform c (c.layout w) r e is editor) := by
  obtain ⟨placed, named⟩ := Case.validate_eq_ok valid
  have source := placed c.source List.mem_cons_self
  exact spares_bind (spares_ofExcept (Case.clears_script source named r is)) fun _ =>
    spares_bind (Workspace.spares_materialize placed _) fun _ => spares_bind spares_world fun _ =>
    spares_bind (spares_ofFault _) fun _ => spares_bind (spares_supervise _ _ _ _ _) fun _ =>
    spares_bind spares_world fun _ => spares_ofExcept (Outcome.clears_resolve _ _ _ _ _)

/-- What is checked before anything is changed: the inputs fit, there is a cursor if one is needed, and the case is
valid. -/
def checks (c : Case) (r : Request) (e : Expectation) (given : Inputs) (w : World) :
    Except Failure (List Injection) := do
  let injections ← r.injections c w e given
  r.demandCursor c
  c.validate w
  return injections

/-- What a run does once it is past its checks. -/
def act (c : Case) (l : Layout) (r : Request) (e : Expectation) (is : List Injection) (editor : Editor) : Trial Unit :=
  if c.cleanup then (perform c l r e is editor).followedBy (Workspace.cleanup l) else perform c l r e is editor

section Run

variable {c : Case} {r : Request} {e : Expectation} {given : Inputs} {editor : Editor} {s : Session}

theorem runIn_ofExcept_bind {α β : Type} (x : Except Failure α) (f : α → Trial β) (s : Session) :
    (ofExcept x >>= f).runIn s =
      match x with
      | .ok a => (f a).runIn s
      | .error e => (.error e, s) := by
  rw [runIn_bind]
  cases x <;> rfl

theorem runIn_run_of_error {f : Failure} (stopped : checks c r e given s.world = .error f) :
    (run c r e given editor).runIn s = (.error f, s) := by
  unfold checks at stopped
  unfold run
  rw [runIn_world_bind, runIn_ofExcept_bind]
  cases injected : r.injections c s.world e given with
  | error g =>
    rw [injected] at stopped
    cases stopped
    rfl
  | ok is =>
    rw [injected] at stopped
    dsimp only
    rw [runIn_ofExcept_bind]
    cases cursor : r.demandCursor c with
    | error g =>
      rw [cursor] at stopped
      cases stopped
      rfl
    | ok _ =>
      rw [cursor] at stopped
      dsimp only
      rw [runIn_ofExcept_bind]
      cases valid : c.validate s.world with
      | error g =>
        rw [valid] at stopped
        cases stopped
        rfl
      | ok _ =>
        rw [valid] at stopped
        cases stopped

theorem validate_of_checks {w : World} {is : List Injection} (passed : checks c r e given w = .ok is) :
    c.validate w = .ok () := by
  obtain ⟨_, -, passed⟩ := bind_eq_ok passed
  obtain ⟨_, -, passed⟩ := bind_eq_ok passed
  obtain ⟨_, valid, -⟩ := bind_eq_ok passed
  exact valid

theorem runIn_run_of_ok {is : List Injection} (passed : checks c r e given s.world = .ok is) :
    (run c r e given editor).runIn s = (act c (c.layout s.world) r e is editor).runIn s := by
  obtain ⟨_, injected, passed⟩ := bind_eq_ok passed
  obtain ⟨_, cursor, passed⟩ := bind_eq_ok passed
  obtain ⟨_, valid, passed⟩ := bind_eq_ok passed
  cases passed
  unfold run
  rw [runIn_world_bind, runIn_ofExcept_bind, injected]
  dsimp only
  rw [runIn_ofExcept_bind, cursor]
  dsimp only
  rw [runIn_ofExcept_bind, valid]
  rfl

end Run

/-- **Checks come before changes.**  A run that ends with the failure of a precondition leaves the session as it was:
the files, also those of an earlier run, the slots, and what is known of the last editor.  For once a case is valid,
neither its script nor its files are refused for what has been checked. -/
theorem precondition_untouched (c : Case) (r : Request) (e : Expectation) (given : Inputs) (editor : Editor)
    (s : Session) :
    (∀ f, f.isPrecondition = true → ((run c r e given editor).runIn s).1 = .error f →
      ((run c r e given editor).runIn s).2 = s) ∧
    (c.validate s.world = .ok () → ∀ f, f.isPrecondition = true →
      (∀ is, c.script (c.layout s.world) r is ≠ .error f) ∧
      ∀ script s', ((Workspace.materialize c (c.layout s.world) script).runIn s').1 ≠ .error f) := by
  constructor
  · intro f told ended
    cases checked : checks c r e given s.world with
    | error g => rw [runIn_run_of_error checked]
    | ok is =>
      have valid := validate_of_checks checked
      have performed : Spares (perform c (c.layout s.world) r e is editor) := spares_perform valid r e is editor
      have acted : Spares (act c (c.layout s.world) r e is editor) := by
        unfold act
        split
        · exact spares_followedBy performed (Workspace.spares_cleanup _)
        · exact performed
      rw [runIn_run_of_ok checked] at ended
      rw [acted s f ended] at told
      cases told
  · intro valid f told
    obtain ⟨placed, named⟩ := Case.validate_eq_ok valid
    constructor
    · intro is refused
      rw [Case.clears_script (placed c.source List.mem_cons_self) named r is f refused] at told
      cases told
    · intro script s' refused
      rw [Workspace.spares_materialize placed script s' f refused] at told
      cases told

/-- A world in which an earlier run has left its workspace. -/
def usedWorld : World :=
  ⟨[(["t"], .directory), (["t", "lspresso-shot"], .directory), (["t", "lspresso-shot", "1"], .directory),
    (["t", "lspresso-shot", "1", "results.json"], .file [110] false), (["e"], .file [] true)], [], [],
    ⟨.slash, ["t"]⟩, "1"⟩

/-- A case that has its workspace removed. -/
def tidyCase : Case := ⟨"/e", ⟨"a.b", .str ""⟩, none, [], .immediate, 1, true, "/e", "1"⟩

/-- An editor that reports an empty reply. -/
def finishing : Editor := ⟨none, some 0, [(.empty, .file [])]⟩

theorem tidyCase_validate : tidyCase.validate usedWorld = .ok () := by
  have runnable : ∀ failure, Case.demand usedWorld "/e" failure = .ok () := fun failure => by cbv
  have placed : (tidyCase.layout usedWorld).source "a.b" =
      .ok ⟨.slash, ["t", "lspresso-shot", "1", "src", "a.b"]⟩ := by cbv
  have extension : tidyCase.fileExtension = .ok "b" := rfl
  have files : tidyCase.files = [⟨"a.b", .str ""⟩] := rfl
  have editor : tidyCase.editor = "/e" := rfl
  have server : tidyCase.server = "/e" := rfl
  unfold Case.validate
  rw [extension, files, editor, server, runnable, runnable]
  simp only [List.forM_eq_forM, List.forM_cons, List.forM_nil, placed]
  rfl

/-- Without the cursor that its request needs even such a case leaves the workspace where it is. -/
theorem precondition_untouched_cursor :
    let ended := (run tidyCase .hover .nothing [] finishing).runIn (.ofWorld usedWorld)
    ended.1 = .error (.noCursor "hover") ∧ ended.2 = .ofWorld usedWorld ∧ tidyCase.validate usedWorld = .ok () ∧
      (∀ is, tidyCase.script (tidyCase.layout usedWorld) .hover is ≠ .error (.noCursor "hover")) ∧
      ∀ script s', ((Workspace.materialize tidyCase (tidyCase.layout usedWorld) script).runIn s').1 ≠
        .error (.noCursor "hover") := by
  intro ended
  have injected : Request.hover.injections tidyCase (Session.ofWorld usedWorld).world .nothing [] =
      .ok [.textDocument "textDocument"] := rfl
  have checked : checks tidyCase .hover .nothing [] (Session.ofWorld usedWorld).world = .error (.noCursor "hover") := by
    unfold checks
    rw [injected]
    rfl
  have stopped : ended.1 = .error (.noCursor "hover") := by
    unfold ended
    rw [runIn_run_of_error checked]
  obtain ⟨untouched, spared⟩ := precondition_untouched tidyCase .hover .nothing [] finishing (.ofWorld usedWorld)
  exact ⟨stopped, untouched _ rfl stopped, tidyCase_validate, spared tidyCase_validate _ rfl⟩

end Trial

end ServerTrial
