import ServerTrial.World.Layout
import ServerTrial.Text.Quoted

/-!
# File URIs

The URI of a path percent-encodes all bytes but those of letters, digits, `_.-~`, slashes and colons.  A server
may report a workspace file under several spellings of the directory: encoded or not, given or with links
followed.  `cleanUri` takes the first spelling that fits off.
-/

namespace ServerTrial

namespace Uri

/-- Is the byte written as it is? -/
def isPlain (n : Nat) : Bool :=
  (0x30 ≤ n && n ≤ 0x39) || (0x41 ≤ n && n ≤ 0x5A) || (0x61 ≤ n && n ≤ 0x7A) ||
    n == 0x5F || n == 0x2E || n == 0x2D || n == 0x7E || n == 0x2F || n == 0x3A

def hexDigit (n : Nat) : Char := if n < 10 then Char.ofNat (0x30 + n) else Char.ofNat (0x37 + n)

/-- The characters for a byte. -/
def encodeByte (b : UInt8) : List Char :=
  let n := b.toNat
  if isPlain n then [Char.ofNat n] else ['%', hexDigit (n / 16), hexDigit (n % 16)]

/-- Percent-encodes a text. -/
def encode (s : String) : String := String.ofList (s.toUTF8.toList.flatMap encodeByte)

/-- The URI of a path. -/
def ofPath (p : Path) : String := "file://" ++ encode p.toString

/-- The URI of a path without encoding. -/
def rawOfPath (p : Path) : String := "file://" ++ p.toString

/-- With one slash at the end. -/
def endSlash (s : String) : String :=
  String.ofList ((s.toList.reverse.dropWhile (· == '/')).reverse ++ ['/'])

/-- Each text once, at its first place. -/
def distinct (xs : List String) : List String :=
  xs.foldl (fun acc x => if acc.contains x then acc else acc ++ [x]) []

/-- The spellings of a directory, given and with links followed. -/
def spellings (directory resolved : Path) : List String :=
  distinct ([ofPath directory, rawOfPath directory, ofPath resolved, rawOfPath resolved].map endSlash)

/-- Takes the first of the spellings that fits off. -/
def clean (spellings : List String) (uri : String) : String :=
  match spellings.find? (fun p => p.toList.isPrefixOf uri.toList) with
  | some p => String.ofList (uri.toList.drop p.toList.length)
  | none => uri

end Uri

end ServerTrial
