import ServerTrial.Text.Quoted

/-!
# UTF-8

Decoding bytes one character at a time.  A fault names its bytes: a byte that starts nothing, the start of a
character that does not go on, or a character that the end cuts off.
-/

namespace ServerTrial.Utf8

/-- What is wrong with bytes that are no character. -/
inductive Reason where
  | start | continuation | unexpectedEnd
  deriving DecidableEq, Repr, Inhabited

def Reason.text : Reason → String
  | start => "invalid start byte"
  | continuation => "invalid continuation byte"
  | unexpectedEnd => "unexpected end of data"

/-- The outcome of reading in front: a code point or a fault, and the number of bytes it takes. -/
inductive Head where
  | point (n : Nat) (size : Nat)
  | fault (reason : Reason) (size : Nat)
  deriving DecidableEq, Repr, Inhabited

def isTail (b : Nat) : Bool := 0x80 ≤ b && b ≤ 0xBF

/-- May `b` follow the first byte `a`?  Shortest forms only, no surrogates, nothing above 0x10FFFF. -/
def isSecond (a b : Nat) : Bool :=
  isTail b && !(a == 0xE0 && b < 0xA0) && !(a == 0xED && b ≥ 0xA0) && !(a == 0xF0 && b < 0x90) &&
    !(a == 0xF4 && b ≥ 0x90)

/-- The length of the character that a byte starts, zero if it starts none. -/
def width (a : Nat) : Nat :=
  if a < 0x80 then 1
  else if a < 0xC2 then 0
  else if a < 0xE0 then 2
  else if a < 0xF0 then 3
  else if a < 0xF5 then 4
  else 0

/-- Reads in front of bytes that are not empty. -/
def head (a : Nat) (rest : List Nat) : Head :=
  match width a with
  | 1 => .point a 1
  | 2 =>
    match rest with
    | [] => .fault .unexpectedEnd 1
    | b :: _ => if isSecond a b then .point ((a - 0xC0) * 0x40 + (b - 0x80)) 2 else .fault .continuation 1
  | 3 =>
    match rest with
    | [] => .fault .unexpectedEnd 1
    | b :: rest =>
      if !isSecond a b then .fault .continuation 1
      else
        match rest with
        | [] => .fault .unexpectedEnd 2
        | c :: _ =>
          if isTail c then .point ((a - 0xE0) * 0x1000 + (b - 0x80) * 0x40 + (c - 0x80)) 3
          else .fault .continuation 2
  | 4 =>
    match rest with
    | [] => .fault .unexpectedEnd 1
    | b :: rest =>
      if !isSecond a b then .fault .continuation 1
      else
        match rest with
        | [] => .fault .unexpectedEnd 2
        | c :: rest =>
          if !isTail c then .fault .continuation 2
          else
            match rest with
            | [] => .fault .unexpectedEnd 3
            | d :: _ =>
              if isTail d then
                .point ((a - 0xF0) * 0x40000 + (b - 0x80) * 0x1000 + (c - 0x80) * 0x40 + (d - 0x80)) 4
              else .fault .continuation 3
  | _ => .fault .start 1

/-- The first fault of a text. -/
structure Fault where
  reason : Reason
  position : Nat
  size : Nat
  bytes : List Nat
  deriving DecidableEq, Repr, Inhabited

namespace Fault

/-- The report on a fault. -/
def message (f : Fault) : String :=
  if f.size = 1 then
    "'utf-8' codec can't decode byte 0x" ++ Text.hex 2 (f.bytes.headD 0) ++ " in position " ++ toString f.position ++
      ": " ++ f.reason.text
  else
    "'utf-8' codec can't decode bytes in position " ++ toString f.position ++ "-" ++
      toString (f.position + f.size - 1) ++ ": " ++ f.reason.text

end Fault

/-- Decodes at most `fuel` characters from `position` on. -/
def decodeFrom : Nat → Nat → List Nat → Except Fault (List Char)
  | 0, _, _ => .ok []
  | _ + 1, _, [] => .ok []
  | fuel + 1, position, a :: rest =>
    match head a rest with
    | .point n size =>
      match decodeFrom fuel (position + size) ((a :: rest).drop size) with
      | .ok cs => .ok (Char.ofNat n :: cs)
      | .error f => .error f
    | .fault reason size => .error ⟨reason, position, size, (a :: rest).take size⟩

/-- Decodes bytes, or reports the first fault. -/
def decode (bytes : List Nat) : Except Fault String :=
  (decodeFrom bytes.length 0 bytes).map String.ofList

/-- Decodes at most `fuel` characters, a replacement character for each fault. -/
def replaceFrom : Nat → List Nat → List Char
  | 0, _ => []
  | _ + 1, [] => []
  | fuel + 1, a :: rest =>
    match head a rest with
    | .point n size => Char.ofNat n :: replaceFrom fuel ((a :: rest).drop size)
    | .fault _ size => Char.ofNat 0xFFFD :: replaceFrom fuel ((a :: rest).drop size)

/-- Decodes bytes, a replacement character for each fault. -/
def decodeReplacing (bytes : List Nat) : String := String.ofList (replaceFrom bytes.length bytes)

/-- Carriage returns, alone or before a line feed, become line feeds. -/
def unixLines : List Char → List Char
  | [] => []
  | '\r' :: '\n' :: rest => '\n' :: unixLines rest
  | '\r' :: rest => '\n' :: unixLines rest
  | c :: rest => c :: unixLines rest

end ServerTrial.Utf8
