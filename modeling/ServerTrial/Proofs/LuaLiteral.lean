import ServerTrial.Proofs.Utf8
import ServerTrial.Lua.Literal

/-!
# Literals

What the ways of writing a text guarantee: between double quotes each byte is written by itself (`toList_quoted`);
a level of long brackets is found whose closing bracket stands for the first time behind the text
(`level_closes_first`); an identifier has the characters of one (`identifier_chars`).
-/

namespace ServerTrial.Lua

/-! ### Double quotes -/

/-- A byte between double quotes, by its number. -/
def quoteUnit (n : Nat) : List Char :=
  if n = 0x22 ∨ n = 0x5C then ['\\', Char.ofNat n]
  else if 0x20 ≤ n ∧ n < 0x7F then [Char.ofNat n]
  else ['\\', digitChar (n / 100), digitChar (n / 10), digitChar n]

theorem toList_quoted (text : String) :
    (quoted text).toList = '"' :: ((byteValues (textBytes text)).flatMap quoteUnit ++ ['"']) := by
  have bytes : text.toUTF8.toList.flatMap quoteByte = (byteValues (textBytes text)).flatMap quoteUnit := by
    rw [byteValues, List.flatMap_map]
    rfl
  rw [quoted, String.toList_ofList, bytes]

theorem toNat_digitChar (n : Nat) : (digitChar n).toNat = 0x30 + n % 10 := by
  have bound := Nat.mod_lt n (by decide : 10 > 0)
  rw [digitChar, Text.toNat_ofNat (by unfold Nat.isValidChar; omega)]

/-! ### Long brackets -/

section Long

variable {p : List Char}

/-- A pattern starts for the first time no later than anywhere. -/
theorem indexOf?_le (some' : p ≠ []) (x y : List Char) {i : Nat} (h : indexOf? p (x ++ (p ++ y)) = some i) :
    i ≤ x.length := by
  induction x generalizing i with
  | nil =>
    obtain ⟨c, cs, rfl⟩ := List.exists_cons_of_ne_nil some'
    have fits : (c :: cs).isPrefixOf (c :: cs ++ y) = true := List.isPrefixOf_iff_prefix.2 (List.prefix_append _ _)
    rw [List.nil_append, List.cons_append, indexOf?, ← List.cons_append, if_pos fits] at h
    exact (Option.some.inj h).symm.le
  | cons d x ih =>
    rw [List.cons_append, indexOf?] at h
    split at h
    · exact (Option.some.inj h).symm.le.trans (Nat.zero_le _)
    · obtain ⟨j, hj, rfl⟩ := Option.map_eq_some_iff.1 h
      exact Nat.succ_le_succ (ih hj)

/-- A pattern that starts nowhere in a text before starts behind it. -/
theorem indexOf?_append_self (some' : p ≠ []) (x : List Char)
    (late : ∀ y z, x = y ++ z → z ≠ [] → p.isPrefixOf (z ++ p) = false) : indexOf? p (x ++ p) = some x.length := by
  induction x with
  | nil =>
    obtain ⟨c, cs, rfl⟩ := List.exists_cons_of_ne_nil some'
    have fits : (c :: cs).isPrefixOf (c :: cs) = true := List.isPrefixOf_iff_prefix.2 (List.prefix_refl _)
    rw [List.nil_append, indexOf?, if_pos fits]
    rfl
  | cons c x ih =>
    have front := late [] (c :: x) rfl (List.cons_ne_nil _ _)
    rw [List.cons_append] at front ⊢
    have later := ih fun y z split => late (c :: y) z (by rw [split, List.cons_append])
    rw [indexOf?, if_neg (Bool.eq_false_iff.1 front), later]
    rfl

theorem closing_ne_nil (level : Nat) : closing level ≠ [] := List.cons_ne_nil _ _

theorem length_closing (level : Nat) : (closing level).length = level + 2 := by
  simp [closing]

/-- At a level no lower than the text is long, the closing bracket cannot start within the text: an equals sign of
it would stand where the bracket behind the text starts. -/
theorem closesAtEnd_of_length_le {text : List Char} {level : Nat} (high : text.length ≤ level) :
    closesAtEnd text level = true := by
  rw [closesAtEnd, beq_iff_eq]
  refine indexOf?_append_self (closing_ne_nil level) text fun y z split some' => Bool.eq_false_iff.2 fun fits => ?_
  have short : z.length ≤ level := by
    rw [split, List.length_append] at high
    omega
  have positive : 0 < z.length := List.length_pos_iff.2 some'
  have within : z.length < (closing level).length := by
    rw [length_closing]
    omega
  have same := List.IsPrefix.getElem (List.isPrefixOf_iff_prefix.1 fits) within
  have sign : (closing level)[z.length] = '=' := by
    obtain ⟨k, hk⟩ := Nat.exists_eq_succ_of_ne_zero positive.ne'
    simp only [closing, hk, List.getElem_cons_succ]
    rw [List.getElem_append_left (by rw [List.length_replicate]; omega), List.getElem_replicate]
  rw [sign, List.getElem_append_right (Nat.le_refl _)] at same
  simp [closing] at same

theorem levelFrom_closes {text : List Char} {fuel level k : Nat} (from' : level ≤ k) (within : k < level + fuel)
    (closes : closesAtEnd text k = true) : closesAtEnd text (levelFrom text fuel level) = true := by
  induction fuel generalizing level with
  | zero => omega
  | succ fuel ih =>
    rw [levelFrom]
    split
    · assumption
    next other =>
      have later : level ≠ k := fun same => other (same ▸ closes)
      exact ih (by omega) (by omega)

theorem closesAtEnd_level (text : List Char) : closesAtEnd text (level text) = true :=
  levelFrom_closes (Nat.zero_le _) (show text.length < 0 + (text.length + 1) by omega)
    (closesAtEnd_of_length_le (Nat.le_refl _))

/-- **The closing bracket stands for the first time at the end.** -/
theorem level_closes_first (text x y : List Char)
    (split : x ++ (closing (level text) ++ y) = text ++ closing (level text)) : y = [] := by
  have closes := closesAtEnd_level text
  rw [closesAtEnd, beq_iff_eq, ← split] at closes
  have late := indexOf?_le (closing_ne_nil _) x y closes
  have lengths := congrArg List.length split
  simp only [List.length_append] at lengths
  exact List.length_eq_zero_iff.1 (by omega)

end Long

/-! ### Identifiers -/

/-- An identifier has word characters, of which the first is no digit. -/
theorem identifier_chars (name : String) : (∀ c ∈ (identifier name).toList, isWordChar c = true) ∧
    ∃ c cs, (identifier name).toList = c :: cs ∧ Text.isDigit c = false := by
  have cleaned : ∀ c ∈ name.toList.map fun c => if isWordChar c then c else '_', isWordChar c = true := by
    intro c hc
    obtain ⟨d, -, rfl⟩ := List.mem_map.1 hc
    split
    · assumption
    · rfl
  have stem : "v_".toList = ['v', '_'] := String.toList_ofList
  have letters : ∀ c ∈ ['v', '_'], isWordChar c = true :=
    List.forall_mem_cons.2 ⟨rfl, List.forall_mem_singleton.2 rfl⟩
  unfold identifier
  dsimp only
  split
  next => rw [stem]; exact ⟨letters, 'v', ['_'], rfl, rfl⟩
  next c cs written =>
    split
    next =>
      rw [String.toList_append, stem, String.toList_ofList]
      exact ⟨List.forall_mem_append.2 ⟨letters, cleaned⟩, 'v', _, rfl, rfl⟩
    next digit =>
      rw [String.toList_ofList]
      exact ⟨cleaned, c, cs, written, Bool.eq_false_iff.2 digit⟩

end ServerTrial.Lua
