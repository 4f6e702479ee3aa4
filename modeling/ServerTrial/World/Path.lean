/-!
# Paths

A path is a root and the components below it.  Empty components and single dots are no components; two dots are
kept, since what they mean depends on the file system.  Two slashes in front, and no more, are a root of their
own.  `Path.normalize` takes two dots as a step back.
-/

namespace ServerTrial

/-- Where a path starts. -/
inductive Root where
  | here | slash | doubleSlash
  deriving DecidableEq, Repr, Inhabited

structure Path where
  root : Root
  parts : List String
  deriving DecidableEq, Repr, Inhabited

/-- Splits at a separator. -/
def splitChars (separator : Char) : List Char → List (List Char)
  | [] => [[]]
  | c :: cs =>
    if c = separator then [] :: splitChars separator cs
    else
      match splitChars separator cs with
      | [] => [[c]]
      | p :: ps => (c :: p) :: ps

/-- The pieces of a text between separators. -/
def splitText (separator : Char) (s : String) : List String :=
  (splitChars separator s.toList).map String.ofList

namespace Path

def rootOf (text : List Char) : Root :=
  match text with
  | '/' :: '/' :: '/' :: _ => .slash
  | '/' :: '/' :: _ => .doubleSlash
  | '/' :: _ => .slash
  | _ => .here

/-- Reads a path. -/
def ofString (text : String) : Path :=
  ⟨rootOf text.toList, (splitText '/' text).filter fun p => p != "" && p != "."⟩

def rootText : Root → String
  | .here => ""
  | .slash => "/"
  | .doubleSlash => "//"

/-- The text of a path; a single dot if there is nothing to write. -/
def toString (p : Path) : String :=
  if p.root = .here ∧ p.parts = [] then "." else rootText p.root ++ "/".intercalate p.parts

instance : ToString Path := ⟨toString⟩

def isAbsolute (p : Path) : Bool := p.root != .here

/-- `q` seen from `p`; an absolute path stays as it is. -/
def join (p q : Path) : Path := if q.isAbsolute then q else ⟨p.root, p.parts ++ q.parts⟩

/-- `p` with the components of a text behind it. -/
def child (p : Path) (name : String) : Path := p.join (ofString name)

/-- Without its last component. -/
def parent (p : Path) : Path := ⟨p.root, p.parts.dropLast⟩

/-- The last component, empty if there is none. -/
def name (p : Path) : String := p.parts.getLastD ""

/-- What stands behind the last dot of a name, if something stands on both sides of it. -/
def suffixOf (name : List Char) : List Char :=
  let tail := (name.reverse.takeWhile (· != '.')).reverse
  if tail.isEmpty || tail.length + 1 ≥ name.length then [] else tail

/-- The extension of the last component, without its dot. -/
def extension (p : Path) : String := String.ofList (suffixOf p.name.toList)

/-- Components after taking one more: two dots go back unless there is nothing to go back over. -/
def stepLexically (rooted : Bool) (done : List String) (part : String) : List String :=
  if part = ".." then
    match done.getLast? with
    | none => if rooted then [] else [".."]
    | some last => if last = ".." then done ++ [".."] else done.dropLast
  else done ++ [part]

/-- The path with two dots taken as steps back. -/
def normalize (p : Path) : Path := ⟨p.root, p.parts.foldl (stepLexically p.isAbsolute) []⟩

/-- Does `q` lie below `p`? -/
def isAbove (p q : Path) : Bool := p.root == q.root && p.parts.isPrefixOf q.parts && p.parts.length < q.parts.length

end Path

end ServerTrial
