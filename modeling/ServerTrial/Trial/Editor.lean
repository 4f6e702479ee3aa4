import ServerTrial.World.Layout

/-!
# Editors under watch

What a run needs to know of an editor: whether it starts, what it leaves beside its script, and how often it is
found running before it has exited.  `Watch.follow` looks after one until it exits or the time is up, and then
stops it.
-/

namespace ServerTrial

/-- What an editor leaves in a place. -/
inductive Left where
  | file (content : List UInt8)
  | directory
  deriving DecidableEq, Repr, Inhabited

structure Editor where
  /-- Why it cannot be started, if it cannot. -/
  refusal : Option String
  /-- How many looks find it running; without end if none is given. -/
  lifetime : Option Nat
  /-- What it leaves beside its script. -/
  leaves : List (Marker × Left)
  deriving DecidableEq, Repr, Inhabited

/-- Is an editor still running when it is looked after with `polls` looks done before? -/
def Editor.runsAt (e : Editor) (polls : Nat) : Bool :=
  match e.lifetime with
  | some n => polls < n
  | none => true

/-- What was done to look after an editor, and the time that it took. -/
structure Watch where
  polls : Nat
  sleeps : Nat
  kills : Nat
  waits : Nat
  clock : Float
  deriving Inhabited

namespace Watch

def start : Watch := ⟨0, 0, 0, 0, 0⟩

/-- One more look. -/
def poll (w : Watch) : Watch := { w with polls := w.polls + 1 }

def sleep (interval : Float) (w : Watch) : Watch := { w with sleeps := w.sleeps + 1, clock := w.clock + interval }

/-- Stops the editor and waits for its end. -/
def kill (w : Watch) : Watch := { w with kills := w.kills + 1, waits := w.waits + 1 }

/-- The last look when the time is up; an editor that is still running is stopped. -/
def finish (e : Editor) (w : Watch) : Bool × Watch := if e.runsAt w.polls then (false, w.poll.kill) else (true, w.poll)

/-- Looks at the editor, at most `fuel` times before the deadline.  Has it exited by itself? -/
def follow (e : Editor) (deadline interval : Float) : Nat → Watch → Bool × Watch
  | 0, w => finish e w
  | fuel + 1, w =>
    if w.clock < deadline then
      if e.runsAt w.polls then follow e deadline interval fuel (w.poll.sleep interval) else (true, w.poll)
    else finish e w

/-- Enough looks to find that the editor has exited or that the time is up.  There are no more floats than this, and a
clock that gets to the deadline shows none of them twice on its way. -/
def enough (e : Editor) : Nat :=
  match e.lifetime with
  | some n => n + 1
  | none => UInt64.size

/-- Looks after an editor for `timeout` seconds. -/
def run (e : Editor) (timeout interval : Float) : Bool × Watch :=
  follow e (0 + timeout) interval (enough e) start

end Watch

end ServerTrial
