import ServerTrial.World.Tree
import ServerTrial.Trial.Slots
import ServerTrial.Trial.Editor
import ServerTrial.Failure

/-!
# Sessions

The state that trials run in: the world, the slots for editors, and what is known of the last editor.  A trial
may fail, and what it has changed up to then stays changed.
-/

namespace ServerTrial

/-- The start of an editor: its command and how it was looked after. -/
structure EditorRun where
  command : List String
  watch : Watch
  deriving Inhabited

structure Session where
  world : World
  slots : Slots
  editorRun : Option EditorRun
  deriving Inhabited

namespace Session

def ofWorld (w : World) : Session := ⟨w, Slots.forEditors, none⟩

end Session

/-- Steps that change a session and may fail. -/
abbrev Trial := ExceptT Failure (StateM Session)

namespace Trial

def world : Trial World := do return (← get).world

/-- Stops with what is known without the session. -/
def ofExcept {α : Type} (x : Except Failure α) : Trial α := ExceptT.mk (pure x)

def ofFault {α : Type} (x : Except Fault α) : Trial α := ofExcept (x.mapError Failure.fault)

/-- Changes the world; what is refused ends the trial, and what was changed before that stays changed. -/
def change {ε : Type} (failure : ε → Failure) (f : World → Except ε Unit × World) : Trial Unit := do
  let (result, w) := f (← world)
  modify fun s => { s with world := w }
  ofExcept (result.mapError failure)

/-- Runs a trial and hands out its result with the session after it. -/
def runIn {α : Type} (t : Trial α) (s : Session) : Except Failure α × Session := (ExceptT.run t).run s

end Trial

end ServerTrial
