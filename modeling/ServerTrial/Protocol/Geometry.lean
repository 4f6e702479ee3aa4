import ServerTrial.Protocol.Models

/-!
# Positions and ranges

A position in a text document and a range between two, apart from the values they come in.
-/

namespace ServerTrial

/-- Line and character, both from zero; a message may hold any integers. -/
structure Position where
  line : Int
  character : Int
  deriving DecidableEq, Repr, Inhabited

structure Range where
  start : Position
  stop : Position
  deriving DecidableEq, Repr, Inhabited

namespace Position

def ofValue? (v : Value) : Option Position := do
  let line ← (← v.field? "line").whole?
  let character ← (← v.field? "character").whole?
  return ⟨line, character⟩

def toValue (p : Position) : Value :=
  .record .position [(⟨"line", "line"⟩, .whole p.line), (⟨"character", "character"⟩, .whole p.character)] []

end Position

namespace Range

def ofValue? (v : Value) : Option Range := do
  let start ← Position.ofValue? (← v.field? "start")
  let stop ← Position.ofValue? (← v.field? "end")
  return ⟨start, stop⟩

def toValue (r : Range) : Value :=
  .record .range [(⟨"start", "start"⟩, r.start.toValue), (⟨"end", "end"⟩, r.stop.toValue)] []

/-- From the start of a text to the end of its last line. -/
def whole (text : String) : Range :=
  let cs := text.toList
  ⟨⟨0, 0⟩, ⟨cs.count '\n', (cs.reverse.takeWhile (· != '\n')).length⟩⟩

end Range

end ServerTrial
