import ServerTrial.Proofs.LuaLexer

/-!
# The level of long brackets

A text may hold closing brackets itself, and its end may complete one, so the level of the brackets around it has to be
searched for.

* `isLeast_level`: the search stops, no later than at the length of the text, at the least level whose closing bracket
  stands for the first time behind the text;
* `Reader.lex_bracketed_iff`: brackets of a level around a text are one literal for it exactly at such levels;
* `Reader.longString_literal`: so a text between long brackets is one literal for the text, of the least level that
  makes it one.
-/

namespace ServerTrial.Lua

/-! ### First places -/

section First

variable {p : List Char}

theorem indexOf?_isSome (some' : p ≠ []) (x y : List Char) : (indexOf? p (x ++ (p ++ y))).isSome = true := by
  induction x with
  | nil =>
    obtain ⟨c, cs, rfl⟩ := List.exists_cons_of_ne_nil some'
    have fits : (c :: cs).isPrefixOf (c :: cs ++ y) = true := List.isPrefixOf_iff_prefix.2 (List.prefix_append _ _)
    rw [List.nil_append, List.cons_append, indexOf?, ← List.cons_append, if_pos fits]
    rfl
  | cons d x ih =>
    rw [List.cons_append, indexOf?]
    split
    · rfl
    · rw [Option.isSome_map]
      exact ih

/-- Where a pattern starts, the text is split in what stands before it, the pattern and the rest. -/
theorem exists_split_of_indexOf? {cs : List Char} {i : Nat} (h : indexOf? p cs = some i) :
    ∃ x y, cs = x ++ (p ++ y) ∧ x.length = i := by
  induction cs generalizing i with
  | nil =>
    rw [indexOf?] at h
    split at h
    · next empty =>
      rw [List.isEmpty_iff] at empty
      cases h
      exact ⟨[], [], by rw [empty]; rfl, rfl⟩
    · cases h
  | cons c cs ih =>
    rw [indexOf?] at h
    split at h
    · next fits =>
      obtain ⟨y, hy⟩ := List.isPrefixOf_iff_prefix.1 fits
      cases h
      exact ⟨[], y, hy.symm, rfl⟩
    · obtain ⟨j, hj, rfl⟩ := Option.map_eq_some_iff.1 h
      obtain ⟨x, y, split, length⟩ := ih hj
      exact ⟨c :: x, y, by rw [split, List.cons_append], by rw [List.length_cons, length]⟩

end First

/-! ### The search -/

theorem closesAtEnd_of_lt_levelFrom {text : List Char} {fuel level k : Nat} (from' : level ≤ k)
    (lower : k < levelFrom text fuel level) : closesAtEnd text k = false := by
  induction fuel generalizing level with
  | zero =>
    rw [levelFrom] at lower
    omega
  | succ fuel ih =>
    rw [levelFrom] at lower
    split at lower
    · omega
    · next other =>
      rcases Nat.eq_or_lt_of_le from' with rfl | above
      · exact Bool.eq_false_iff.2 other
      · exact ih above lower

/-- **The level is the least one whose closing bracket stands for the first time behind the text.** -/
theorem isLeast_level (text : List Char) : IsLeast {k | closesAtEnd text k = true} (level text) := by
  refine ⟨closesAtEnd_level text, fun k closes => ?_⟩
  by_contra lower
  have open' := closesAtEnd_of_lt_levelFrom (Nat.zero_le k) (Nat.lt_of_not_le lower)
  rw [Set.mem_ofPred_eq, open'] at closes
  cases closes

theorem level_le_length (text : List Char) : level text ≤ text.length :=
  (isLeast_level text).2 (closesAtEnd_of_length_le (Nat.le_refl _))

/-! ### Reading -/

/-- A text between brackets of a level, behind a line feed. -/
def bracketed (level : Nat) (text : List Char) : List Char :=
  '[' :: (List.replicate level '=' ++ ['[', '\n']) ++ text ++ closing level

namespace Reader

theorem lex_opening (level : Nat) (text cs : List Char) :
    lex .idle (bracketed level text ++ cs) = lex (.long level []) (text ++ closing level ++ cs) := by
  rw [bracketed]
  simp only [List.cons_append, List.append_assoc, List.nil_append]
  rw [lex_silent (.bracket 0) rfl, lex_equalsSigns, Nat.zero_add, lex_silent (.opened level) rfl,
    lex_silent (.long level []) rfl]

/-- The literal ends at the first closing bracket of its level. -/
theorem lex_first {level : Nat} {x : List Char} (plain : '\r' ∉ x)
    (first : ∀ x' y', x ++ closing level = x' ++ (closing level ++ y') → x.length ≤ x'.length) (cs : List Char) :
    lex (.long level []) (x ++ closing level ++ cs) = (lex .idle cs).map (.text (String.ofList x) :: ·) := by
  refine lex_long plain (fun x' y' split => ?_) cs [] (x ++ closing level) rfl (by simp [closing]) fun _ => rfl
  have late := first x' y' split.symm
  have lengths := congrArg List.length split
  simp only [List.length_append] at lengths
  exact List.length_eq_zero_iff.1 (by omega)

/-- **Brackets around a text are one literal for it exactly where their closing one stands for the first time behind
it.** -/
theorem lex_bracketed_iff {s : String} (plain : '\r' ∉ s.toList) (level : Nat) :
    lex .idle (bracketed level s.toList) = some [.text s] ↔ closesAtEnd s.toList level = true := by
  obtain ⟨i, start⟩ := Option.isSome_iff_exists.1 (indexOf?_isSome (closing_ne_nil level) s.toList [])
  rw [List.append_nil] at start
  obtain ⟨x, y, split, rfl⟩ := exists_split_of_indexOf? start
  have ahead : x.length ≤ s.toList.length :=
    indexOf?_le (closing_ne_nil level) s.toList [] (by rw [List.append_nil]; exact start)
  have front : x <+: s.toList :=
    List.prefix_of_prefix_length_le ⟨_, split.symm⟩ (List.prefix_append _ _) ahead
  have first : ∀ x' y', x ++ closing level = x' ++ (closing level ++ y') → x.length ≤ x'.length := by
    intro x' y' other
    refine indexOf?_le (closing_ne_nil level) x' (y' ++ y) ?_
    rwa [← List.append_assoc (closing level), ← List.append_assoc, ← other, List.append_assoc, ← split]
  -- what is read of the brackets ends at the first closing one, which stands behind `x`
  have read : lex .idle (bracketed level s.toList) = (lex .idle y).map (.text (String.ofList x) :: ·) := by
    have opened := lex_opening level s.toList []
    rw [List.append_nil, List.append_nil, split, ← List.append_assoc] at opened
    rw [opened, lex_first (fun cr => plain (front.subset cr)) first]
  rw [read, closesAtEnd, start, beq_iff_eq, Option.some.injEq]
  constructor
  · intro one
    obtain ⟨tokens, -, same⟩ := Option.map_eq_some_iff.1 one
    have text : String.ofList x = s := Token.text.inj (List.cons.inj same).1
    rw [← text, String.toList_ofList]
  · intro whole
    obtain rfl : x = s.toList := front.eq_of_length whole
    obtain rfl : y = [] := by simpa using split
    rw [String.ofList_toList]
    rfl

/-- **A text between long brackets.**  The search for a level stops, no later than at the length of the text.  The
literal stands for the text and ends at its own end, in front of anything, and at no lower level do brackets around the
text stand for it. -/
theorem longString_literal {s : String} (plain : '\r' ∉ s.toList) :
    (longString s).toList = bracketed (level s.toList) s.toList ∧
    level s.toList ≤ s.toList.length ∧
    (∀ rest, lex .idle ((longString s).toList ++ rest) = (lex .idle rest).map (.text s :: ·)) ∧
    IsLeast {k | lex .idle (bracketed k s.toList) = some [.text s]} (level s.toList) := by
  refine ⟨String.toList_ofList, level_le_length _, fun rest => lex_longString plain rest, ?_⟩
  have levels : {k | lex .idle (bracketed k s.toList) = some [.text s]} = {k | closesAtEnd s.toList k = true} :=
    Set.ext fun k => lex_bracketed_iff plain k
  rw [levels]
  exact isLeast_level s.toList

/-- A text that holds the closing bracket of level 0, and whose end completes the one of level 1. -/
theorem longString_literal_level_two : '\r' ∉ "a[i]] ]=".toList ∧
    (longString "a[i]] ]=").toList = bracketed 2 "a[i]] ]=".toList ∧
    IsLeast {k | lex .idle (bracketed k "a[i]] ]=".toList) = some [.text "a[i]] ]="]} 2 := by
  have plain : '\r' ∉ "a[i]] ]=".toList := by decide
  have found : level "a[i]] ]=".toList = 2 := by decide
  obtain ⟨written, -, -, least⟩ := longString_literal plain
  rw [found] at written least
  exact ⟨plain, written, least⟩

end Reader

end ServerTrial.Lua
