/-!
# Slots

How many editors may run at once.  A client enters only while fewer than the limit are inside, and leaves the slot
it holds whether its run went well or not.
-/

namespace ServerTrial

structure Slots where
  limit : Int
  active : Nat
  deriving DecidableEq, Repr, Inhabited

namespace Slots

/-- No client inside. -/
def free (limit : Int) : Slots := ⟨limit, 0⟩

/-- Takes a slot; a client has to wait while all are taken. -/
def acquire? (s : Slots) : Option Slots :=
  if (s.active : Int) < s.limit then some { s with active := s.active + 1 } else none

/-- Gives a slot back. -/
def release (s : Slots) : Slots := { s with active := s.active - 1 }

/-- The limit for editors: they are watched by the clock and would slow each other down. -/
def forEditors : Slots := free 1

end Slots

end ServerTrial
