/-!
# Lone surrogates

JSON escapes can spell half of a surrogate pair without the other half.  Such a half is a code point but no
character.  A text holds it as a stand-in, a character of the last private plane at a fixed distance, so that
texts with and without lone surrogates are of one type; `point` and `ofPoint` go back and forth (`point_ofPoint`).
A text with a stand-in has no bytes (`isWhole`).
-/

namespace ServerTrial.Text

/-- Is the code point half of a pair? -/
def isSurrogate (n : Nat) : Bool := 0xD800 ≤ n && n ≤ 0xDFFF

/-- From a surrogate to its stand-in. -/
def standInDistance : Nat := 0x10F000 - 0xD800

/-- Does the character stand for a lone surrogate? -/
def isStandIn (c : Char) : Bool := 0x10F000 ≤ c.toNat && c.toNat ≤ 0x10F7FF

/-- The code point that a character is or stands for. -/
def point (c : Char) : Nat := if isStandIn c then c.toNat - standInDistance else c.toNat

/-- The character that is or stands for a code point. -/
def ofPoint (n : Nat) : Char := Char.ofNat (if isSurrogate n then n + standInDistance else n)

theorem toNat_ofNat {n : Nat} (h : n.isValidChar) : (Char.ofNat n).toNat = n := by
  rw [Char.ofNat, dif_pos h]; rfl

/-- Every code point comes back, but for those of the stand-ins. -/
theorem point_ofPoint {n : Nat} (valid : n < 0x110000) (free : n < 0x10F000 ∨ 0x10F7FF < n) :
    point (ofPoint n) = n := by
  by_cases h : isSurrogate n
  · have hn := h
    simp only [isSurrogate, Bool.and_eq_true, decide_eq_true_eq] at hn
    have hv : (n + standInDistance).isValidChar := by simp only [Nat.isValidChar, standInDistance]; omega
    have hs : isStandIn (Char.ofNat (n + standInDistance)) := by
      rw [isStandIn, toNat_ofNat hv]
      have hd : standInDistance = 0x101800 := rfl
      simp only [Bool.and_eq_true, decide_eq_true_eq]; omega
    rw [ofPoint, if_pos h, point, if_pos hs, toNat_ofNat hv, Nat.add_sub_cancel]
  · have hn := h
    simp only [isSurrogate, Bool.and_eq_true, decide_eq_true_eq] at hn
    have hv : n.isValidChar := by simp only [Nat.isValidChar]; omega
    have hs : ¬ isStandIn (Char.ofNat n) := by
      rw [isStandIn, toNat_ofNat hv]
      simp only [Bool.and_eq_true, decide_eq_true_eq]; omega
    rw [ofPoint, if_neg h, point, if_neg hs, toNat_ofNat hv]

/-- The code points of a text. -/
def points (s : String) : List Nat := s.toList.map point

/-- Does the text hold no lone surrogate? -/
def isWhole (s : String) : Bool := !s.toList.any isStandIn

theorem isWhole_ofList (cs : List Char) : isWhole (String.ofList cs) = !cs.any isStandIn := by
  rw [isWhole, String.toList_ofList]

/-- Order of lists of code points. -/
def pointsLe : List Nat → List Nat → Bool
  | [], _ => true
  | _ :: _, [] => false
  | m :: ms, n :: ns => if m = n then pointsLe ms ns else m ≤ n

/-- Order of texts by code points. -/
def le (s t : String) : Bool := pointsLe (points s) (points t)

/-- The text with three replacement characters for each lone surrogate, one for each byte it would take. -/
def replaced (s : String) : String :=
  String.ofList (s.toList.flatMap fun c => if isStandIn c then List.replicate 3 (Char.ofNat 0xFFFD) else [c])

end ServerTrial.Text
