import ServerTrial.Proofs.Utf8

/-!
# Spellings by their letters

Percent-encoding writes a text character by character, and what is made of texts by their letters is computed without
them: the letters of a text that is written out are known, while taking it apart again goes through its bytes.

* `Uri.encodeChar`: what is written for a character;
* `Uri.clean_ofList`, `Uri.spellings_ofList`: taking a spelling off, and the spellings of a directory, by letters;
* `World.spellings_eq`: the spellings of a directory whose path, and the path that it leads to, are written out.
-/

namespace ServerTrial

namespace Uri

/-! ### Character by character -/

/-- The characters for a byte, by its number. -/
def encodeUnit (n : Nat) : List Char :=
  if isPlain n then [Char.ofNat n] else ['%', hexDigit (n / 16), hexDigit (n % 16)]

/-- The characters for a character. -/
def encodeChar (c : Char) : List Char := (Utf8.unitsOf c).flatMap encodeUnit

theorem toList_encode (s : String) : (encode s).toList = s.toList.flatMap encodeChar := by
  have bytes : s.toUTF8.toList.flatMap encodeByte = (byteValues (textBytes s)).flatMap encodeUnit := by
    rw [byteValues, List.flatMap_map]
    rfl
  rw [encode, String.toList_ofList, bytes, Utf8.byteValues_textBytes, List.flatMap_assoc]
  rfl

theorem encode_ofList (cs : List Char) : encode (String.ofList cs) = String.ofList (cs.flatMap encodeChar) := by
  rw [← String.toList_inj, toList_encode, String.toList_ofList, String.toList_ofList]

/-! ### Spellings -/

/-- The letters with one slash at the end. -/
def closed (cs : List Char) : List Char := (cs.reverse.dropWhile (· == '/')).reverse ++ ['/']

theorem endSlash_ofList (cs : List Char) : endSlash (String.ofList cs) = String.ofList (closed cs) := by
  rw [endSlash, String.toList_ofList, closed]

/-- Each text once, at its first place, by their letters. -/
def firsts (ls : List (List Char)) : List (List Char) :=
  ls.foldl (fun acc l => if acc.contains l then acc else acc ++ [l]) []

theorem distinct_map_ofList (ls : List (List Char)) :
    distinct (ls.map String.ofList) = (firsts ls).map String.ofList := by
  -- the texts found so far are those of the letters found so far
  suffices step : ∀ found : List (List Char),
      (ls.map String.ofList).foldl (fun acc x => if acc.contains x then acc else acc ++ [x]) (found.map String.ofList) =
        (ls.foldl (fun acc l => if acc.contains l then acc else acc ++ [l]) found).map String.ofList from step []
  induction ls with
  | nil => exact fun _ => rfl
  | cons l ls ih =>
    intro found
    have same : (found.map String.ofList).contains (String.ofList l) = found.contains l := by
      rw [Bool.eq_iff_iff, List.contains_iff_mem, List.contains_iff_mem, List.mem_map_of_injective]
      exact fun _ _ => String.ofList_injective
    rw [List.map_cons, List.foldl_cons, List.foldl_cons, same, ← ih]
    split
    · rfl
    · rw [List.map_append, List.map_singleton]

/-- The letters of both ways to write a path. -/
def formLetters (cs : List Char) : List (List Char) :=
  [closed ("file://".toList ++ cs.flatMap encodeChar), closed ("file://".toList ++ cs)]

theorem spellings_ofList {p q : Path} {cs ds : List Char} (given : p.toString = String.ofList cs)
    (followed : q.toString = String.ofList ds) :
    spellings p q = (firsts (formLetters cs ++ formLetters ds)).map String.ofList := by
  have forms : [ofPath p, rawOfPath p, ofPath q, rawOfPath q].map endSlash =
      (formLetters cs ++ formLetters ds).map String.ofList := by
    simp only [ofPath, rawOfPath, given, followed, encode_ofList, formLetters, List.map_cons, List.map_nil,
      List.cons_append, List.nil_append, ← endSlash_ofList, String.ofList_append, String.ofList_toList]
  rw [spellings, forms, distinct_map_ofList]

theorem clean_ofList (ls : List (List Char)) (us : List Char) :
    clean (ls.map String.ofList) (String.ofList us) =
      String.ofList (match ls.find? (fun l => l.isPrefixOf us) with
        | some l => us.drop l.length
        | none => us) := by
  have same : (fun p : String => p.toList.isPrefixOf us) ∘ String.ofList = fun l => l.isPrefixOf us := by
    funext l
    rw [Function.comp_apply, String.toList_ofList]
  rw [clean, String.toList_ofList, List.find?_map, same]
  cases ls.find? (fun l => l.isPrefixOf us) with
  | none => rfl
  | some l => simp only [Option.map_some, String.toList_ofList]

end Uri

/-- The spellings of a directory that is written out: `s` is given, and leads to `t`. -/
theorem World.spellings_eq {w : World} {p q : Path} {s t : String} {cs ds : List Char} (sound : flaw? p = none)
    (resolved : w.resolve p = q) (given : p.toString = s) (followed : q.toString = t) (hs : String.ofList cs = s)
    (ht : String.ofList ds = t) :
    w.spellings p = .ok ((Uri.firsts (Uri.formLetters cs ++ Uri.formLetters ds)).map String.ofList) := by
  rw [spellings, sound]
  dsimp only
  rw [resolved, Uri.spellings_ofList (given.trans hs.symm) (followed.trans ht.symm)]

end ServerTrial
