import ServerTrial.World.Path
import ServerTrial.World.Uri
import ServerTrial.Text.Utf8

/-!
# The world around a trial

Files, directories and links, the environment variables, the working directory and the directory for temporary
files.  A place is the list of components from the top; a path leads to a place by way of links and parent
directories.  Operations either change the tree and succeed or say why the file system refuses.
-/

namespace ServerTrial

/-- Bytes as numbers. -/
def byteValues (bytes : List UInt8) : List Nat := bytes.map UInt8.toNat

/-- The bytes of a text. -/
def textBytes (s : String) : List UInt8 := s.toUTF8.toList

/-- From the top of the tree. -/
abbrev Place := List String

/-- What stands at a place.  A link leads to what is no link; one that leads to another leads nowhere. -/
inductive Node where
  | file (content : List UInt8) (executable : Bool)
  | directory
  | link (target : Place)
  deriving DecidableEq, Repr, Inhabited

structure World where
  nodes : List (Place × Node)
  environment : List (String × String)
  current : Place
  temporary : Path
  /-- The number that the next case without an id is called by. -/
  nextId : String
  deriving Inhabited

namespace World

/-- What stands at a place; the top is a directory. -/
def at? (w : World) (p : Place) : Option Node :=
  if p = [] then some .directory else (w.nodes.find? fun e => e.1 == p).map Prod.snd

/-- Sets what stands at a place. -/
def set (w : World) (p : Place) (n : Node) : World :=
  if w.nodes.any fun e => e.1 == p then
    { w with nodes := w.nodes.map fun e => if e.1 == p then (p, n) else e }
  else { w with nodes := w.nodes ++ [(p, n)] }

/-- Removes what stands at a place and below it. -/
def remove (w : World) (p : Place) : World := { w with nodes := w.nodes.filter fun e => !p.isPrefixOf e.1 }

/-- Removes what stands below a place. -/
def removeBelow (w : World) (p : Place) : World :=
  { w with nodes := w.nodes.filter fun e => e.1 == p || !p.isPrefixOf e.1 }

/-- An environment variable. -/
def environment? (w : World) (name : String) : Option String := Data.find? name w.environment

/-- Sets or removes an environment variable. -/
def setVariable (w : World) (name : String) (value : Option String) : World :=
  match value with
  | some v => { w with environment := Data.put name v w.environment }
  | none => { w with environment := w.environment.filter fun e => e.1 != name }

/-- Follows a link at a place. -/
def follow (w : World) (p : Place) : Place :=
  match w.at? p with
  | some (.link target) => target
  | _ => p

/-- The longest name of a file, in bytes. -/
def nameLimit : Nat := 255

/-- The longest path, in bytes. -/
def pathLimit : Nat := 4095

/-- Walks along components.  All places on the way must be directories; the last one may be missing. -/
def walk (w : World) : Place → List String → Except SystemError Place
  | p, [] => .ok p
  | p, c :: rest =>
    match w.at? p with
    | some .directory =>
      if c = ".." then walk w p.dropLast rest
      else if c.utf8ByteSize > nameLimit then .error .nameTooLong
      else walk w (w.follow (p ++ [c])) rest
    | some _ => .error .notDirectory
    | none => .error .notFound

/-- Where a path starts. -/
def start (w : World) (p : Path) : Place := if p.isAbsolute then [] else w.current

/-- Is a path longer than any file has? -/
def tooLong (p : Path) : Bool := p.toString.utf8ByteSize > pathLimit

/-- The place a path leads to. -/
def locate (w : World) (p : Path) : Except SystemError Place :=
  if tooLong p then .error .nameTooLong else w.walk (w.start p) p.parts

/-- Why no file can have a path. -/
def flaw? (p : Path) : Option Fault :=
  p.parts.findSome? fun c =>
    if !Text.isWhole c then some .unencodable
    else if c.toList.contains (Char.ofNat 0) then some (.value "embedded null byte")
    else none

/-- Asks what stands at the end of a path; only a name or a path that is too long is an error. -/
def probe (w : World) (p : Path) : Except SystemError (Option Node) :=
  if (flaw? p).isSome then .ok none
  else
    match w.locate p with
    | .ok place => .ok (w.at? place)
    | .error .nameTooLong => .error .nameTooLong
    | .error _ => .ok none

/-- What stands at the end of a path. -/
def find? (w : World) (p : Path) : Option Node := (w.probe p).toOption.join

/-- Asks whether anything stands at the end of a path. -/
def present (w : World) (p : Path) : Except SystemError Bool := (w.probe p).map Option.isSome

def isDirectory (w : World) (p : Path) : Bool :=
  match w.find? p with
  | some .directory => true
  | _ => false

/-- Is there a file that may be run? -/
def isRunnable (w : World) (p : Path) : Bool :=
  match w.find? p with
  | some (.file _ executable) => executable
  | _ => false

/-- The place a path leads to with links followed and without asking whether it exists. -/
def resolveParts (w : World) : Place → List String → Place
  | p, [] => p
  | p, c :: rest => if c = ".." then resolveParts w p.dropLast rest else resolveParts w (w.follow (p ++ [c])) rest

/-- The absolute path with links followed. -/
def resolve (w : World) (p : Path) : Path := ⟨.slash, w.resolveParts (w.start p) p.parts⟩

/-- The spellings of a directory in URIs. -/
def spellings (w : World) (directory : Path) : Except Fault (List String) :=
  match flaw? directory with
  | some f => .error f
  | none => .ok (Uri.spellings directory (w.resolve directory))

/-- Goes along components from a directory and makes the directories that are missing; they stay also if a later
component is refused.  None is made in place of a link that leads nowhere. -/
def makeAlong (w : World) : Place → List String → Except SystemError Unit × World
  | _, [] => (.ok (), w)
  | p, c :: rest =>
    if c = ".." then makeAlong w p.dropLast rest
    else if c.utf8ByteSize > nameLimit then (.error .nameTooLong, w)
    else
      let next := w.follow (p ++ [c])
      match w.at? next with
      | some .directory => makeAlong w next rest
      | some _ => (.error (if rest.isEmpty then .exists else .notDirectory), w)
      | none => if next = p ++ [c] then makeAlong (w.set next .directory) next rest else (.error .exists, w)

/-- Makes a directory unless it is there, with all that are missing above it. -/
def ensureDirectory (w : World) (p : Path) : Except SystemError Unit × World :=
  if tooLong p then (.error .nameTooLong, w)
  else
    match w.at? (w.start p) with
    | some .directory => w.makeAlong (w.start p) p.parts
    | _ => (.error .notFound, w)

/-- Writes a file, replacing its content.  A new one needs a directory to stand in. -/
def store (w : World) (p : Path) (content : List UInt8) : Except SystemError World :=
  match w.locate p with
  | .error e => .error e
  | .ok place =>
    match w.at? place with
    | some .directory => .error .isDirectory
    | some (.file _ executable) => .ok (w.set place (.file content executable))
    | some (.link _) => .error .notFound
    | none =>
      match w.at? place.dropLast with
      | some .directory => .ok (w.set place (.file content false))
      | _ => .error .notFound

/-- Writes a text; one that has no bytes leaves the file empty. -/
def storeText (w : World) (p : Path) (text : String) : Except Fault Unit × World :=
  match w.store p (if Text.isWhole text then textBytes text else []) with
  | .error e => (.error (.system e), w)
  | .ok w => (if Text.isWhole text then .ok () else .error .unencodable, w)

/-- Reads a file. -/
def fetch (w : World) (p : Path) : Except SystemError (List UInt8) :=
  match w.locate p with
  | .error e => .error e
  | .ok place =>
    match w.at? place with
    | some (.file content _) => .ok content
    | some _ => .error .isDirectory
    | none => .error .notFound

/-- The place of a link at the end of a path. -/
def linkAt? (w : World) (p : Path) : Option Place :=
  match p.parts.getLast?, w.locate p.parent with
  | some name, .ok place =>
    match w.at? (place ++ [name]) with
    | some (.link _) => some (place ++ [name])
    | _ => none
  | _, _ => none

/-- Does a link stand at the end of a path? -/
def isLink (w : World) (p : Path) : Bool := (w.linkAt? p).isSome

/-- Removes a file, or a link without what it leads to; a missing one is no error. -/
def removeFile (w : World) (p : Path) : Except SystemError Unit × World :=
  match w.locate p with
  | .error .notFound => (.ok (), w)
  | .error e => (.error e, w)
  | .ok place =>
    match w.linkAt? p with
    | some link => (.ok (), w.remove link)
    | none =>
      match w.at? place with
      | some .directory => (.error .isDirectory, w)
      | some _ => (.ok (), w.remove place)
      | none => (.ok (), w)

/-- Removes a directory and all below it; what cannot be removed stays.  A directory that is named as the parent of
another cannot be removed itself, for its name is gone with the other one. -/
def removeTree (w : World) (p : Path) : World :=
  if w.isLink p then w
  else
    match w.locate p with
    | .error _ => w
    | .ok place =>
      match w.at? place with
      | some .directory => if p.name = ".." then w.removeBelow place else w.remove place
      | _ => w

end World

end ServerTrial
