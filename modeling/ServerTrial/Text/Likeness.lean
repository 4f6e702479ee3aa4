/-!
# Likeness of words

Two words are alike as far as they share stretches of characters: the longest one, and then, on both sides of it,
the longest ones there.  `closest` finds the words that someone may have meant.
-/

namespace ServerTrial.Text

/-- A stretch that two words share: its length and where it starts in each. -/
structure Stretch where
  size : Nat
  left : Nat
  right : Nat
  deriving DecidableEq, Repr, Inhabited

/-- The length of what two words have in common at their start. -/
def sharedStart : List Char → List Char → Nat
  | a :: as, b :: bs => if a = b then sharedStart as bs + 1 else 0
  | _, _ => 0

/-- The longest stretch; of several the one that starts first in `a`, then in `b`. -/
def longestStretch (a b : List Char) : Stretch :=
  let all := (List.range a.length).flatMap fun i =>
    (List.range b.length).map fun j => (⟨sharedStart (a.drop i) (b.drop j), i, j⟩ : Stretch)
  all.foldl (fun best s => if best.size < s.size then s else best) ⟨0, 0, 0⟩

/-- How many characters two words share, in at most `fuel` nested stretches. -/
def shared : Nat → List Char → List Char → Nat
  | 0, _, _ => 0
  | fuel + 1, a, b =>
    let s := longestStretch a b
    if s.size = 0 then 0
    else
      s.size + shared fuel (a.take s.left) (b.take s.right) +
        shared fuel (a.drop (s.left + s.size)) (b.drop (s.right + s.size))

/-- How many characters of both words belong to shared stretches, and how many there are. -/
def likeness (a b : String) : Nat × Nat :=
  (2 * shared (a.length + 1) a.toList b.toList, a.length + b.length)

/-- At least three fifths of the characters are shared. -/
def isAlike (score : Nat × Nat) : Bool := score.1 * 5 ≥ score.2 * 3

/-- At most three words like the given one, the most alike first. -/
def closest (word : String) (words : List String) : List String :=
  let scored := (words.map fun x => (likeness x word, x)).filter fun e => isAlike e.1
  let before := fun (e f : (Nat × Nat) × String) =>
    let x := e.1.1 * f.1.2
    let y := f.1.1 * e.1.2
    if x = y then decide (f.2 ≤ e.2) else decide (y ≤ x)
  ((scored.mergeSort before).take 3).map Prod.snd

end ServerTrial.Text
