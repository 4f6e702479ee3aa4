import ServerTrial.Trial.Workspace

/-!
# Supervision

An editor is started on the script and the source file and looked after until it exits.  One that runs out of time
is stopped; what its script has reported as an error explains most of these, and is shown instead of the timeout.
-/

namespace ServerTrial

namespace Trial

/-- The command that starts an editor. -/
def editorCommand (c : Case) (l : Layout) (source : Path) : List String :=
  [c.editor, "-u", l.script.toString, "--noplugin", source.toString, "--headless", "-n"]

/-- Puts what an editor leaves in its place, as far as it can be put there. -/
def leave (l : Layout) (w : World) (left : Marker × Left) : World :=
  let p := l.script.parent.child left.1.fileName
  let w := (w.ensureDirectory l.script.parent).2
  match left.2 with
  | .file content => (w.store p content).toOption.getD w
  | .directory => (w.ensureDirectory p).2

/-- Takes a slot for an editor.  Nobody else holds one, since every run gives its own back. -/
def enter : Trial Unit := modify fun s => { s with slots := s.slots.acquire?.getD s.slots }

/-- Gives the slot back and keeps what is known of the editor. -/
def exit (run : EditorRun) : Trial Unit :=
  modify fun s => { s with slots := s.slots.release, editorRun := some run }

/-- Starts an editor and looks after it every `interval` seconds. -/
def supervise (c : Case) (l : Layout) (source : Path) (interval : Float) (e : Editor) : Trial Unit := do
  let command := editorCommand c l source
  enter
  match e.refusal with
  | some text =>
    exit ⟨command, Watch.start⟩
    throw (.editor c.testId text)
  | none =>
    modify fun s => { s with world := e.leaves.foldl (leave l) s.world }
    let (exited, watch) := Watch.run e c.timeout interval
    exit ⟨command, watch⟩
    if !exited then
      let error ← ofFault (Workspace.reportedError (← world) l)
      if Text.hasInk error then throw (.editor c.testId error)
      throw (.timeout c.testId c.timeout)

end Trial

end ServerTrial
