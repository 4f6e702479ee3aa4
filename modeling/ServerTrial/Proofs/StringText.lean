import Mathlib
import ServerTrial.Data.JsonWriter
import ServerTrial.Data.JsonReader

/-!
# String texts read back

* `Json.stringBody_escape`: an escaped code point is read as its units, itself or a pair of surrogates;
* `Json.joinPairs_units`: the pairs are joined again;
* `Json.stringBody_string`: a text without lone surrogates reads back.
-/

namespace ServerTrial.Json

/-! ### Hexadecimal digits -/

theorem hexValue?_digitChar : ∀ n < 16, hexValue? n.digitChar = some n := by decide

/-- The last four hexadecimal digits. -/
def hexChars (n : Nat) : List Char :=
  [(n / 4096 % 16).digitChar, (n / 256 % 16).digitChar, (n / 16 % 16).digitChar, (n % 16).digitChar]

theorem toList_hex {n : Nat} (small : n < 0x10000) : (Text.hex 4 n).toList = hexChars n := by
  have step : ∀ k, 16 ≤ k → Nat.toDigits 16 k = Nat.toDigits 16 (k / 16) ++ [(k % 16).digitChar] := fun k hk =>
    Nat.toDigits_of_base_le (by decide) hk
  have last : ∀ k < 16, Nat.toDigits 16 k = [k.digitChar] := fun k hk => Nat.toDigits_of_lt_base hk
  unfold Text.hex
  dsimp only
  rw [String.toList_append, String.toList_ofList, String.toList_ofList, ← String.length_toList, String.toList_ofList]
  unfold hexChars
  rcases (by omega : n < 16 ∨ (16 ≤ n ∧ n < 256) ∨ (256 ≤ n ∧ n < 4096) ∨ 4096 ≤ n) with h | h | h | h
  · rw [last n h, Nat.div_eq_of_lt (by omega : n < 4096), Nat.div_eq_of_lt (by omega : n < 256), Nat.div_eq_of_lt h,
      Nat.mod_eq_of_lt h]
    rfl
  · rw [step n h.1, last _ (by omega), Nat.div_eq_of_lt (by omega : n < 4096), Nat.div_eq_of_lt h.2,
      Nat.mod_eq_of_lt (by omega : n / 16 < 16)]
    rfl
  · rw [step n (by omega), step _ (by omega), last _ (by omega), Nat.div_div_eq_div_mul,
      Nat.div_eq_of_lt h.2, Nat.mod_eq_of_lt (by omega : n / (16 * 16) < 16)]
    rfl
  · rw [step n (by omega), step _ (by omega), step _ (by omega), last _ (by omega),
      Nat.mod_eq_of_lt (by omega : n / 4096 < 16)]
    simp only [Nat.div_div_eq_div_mul]
    rfl

theorem unit?_hexChars {n : Nat} (small : n < 0x10000) :
    unit? (n / 4096 % 16).digitChar (n / 256 % 16).digitChar (n / 16 % 16).digitChar (n % 16).digitChar = some n := by
  unfold unit?
  rw [hexValue?_digitChar _ (by omega), hexValue?_digitChar _ (by omega), hexValue?_digitChar _ (by omega),
    hexValue?_digitChar _ (by omega)]
  show some _ = some n
  congr 1
  omega

/-! ### Escapes -/

/-- The units by which a code point is escaped: itself, or a pair of surrogates. -/
def units (n : Nat) : List Nat :=
  if n < 0x10000 then [n] else [0xD800 + (n - 0x10000) / 0x400, 0xDC00 + (n - 0x10000) % 0x400]

theorem units_of_lt {n : Nat} (small : n < 0x10000) : units n = [n] := if_pos small

theorem units_of_not_lt {n : Nat} (large : ¬ n < 0x10000) :
    units n = [0xD800 + (n - 0x10000) / 0x400, 0xDC00 + (n - 0x10000) % 0x400] := if_neg large

/-- Puts code points in front of what is read. -/
def pushPoints (ns : List Nat) (r : Read (List Nat)) : Read (List Nat) := ns.foldr pushPoint r

theorem stringBody_unit {n : Nat} (small : n < 0x10000) (start : Nat) (q : Char) (rest : List Char) :
    stringBody start (("\\u" ++ Text.hex 4 n).toList ++ q :: rest) = pushPoint n (stringBody start (q :: rest)) := by
  rw [String.toList_append, toList_hex small]
  show stringBody start ('\\' :: 'u' :: _ :: _ :: _ :: _ :: q :: rest) = _
  rw [stringBody, unit?_hexChars small]

theorem stringBody_letter {c : Char} {n : Nat} (letter : letterEscape? c = some n) (start : Nat) (rest : List Char) :
    stringBody start ('\\' :: c :: rest) = pushPoint n (stringBody start rest) := by
  unfold letterEscape? at letter
  split at letter <;> cases letter <;> rw [stringBody] <;> first | rfl | simp

theorem stringBody_plain {c : Char} (quote : c ≠ '"') (slash : c ≠ '\\') (printable : ¬ c.toNat < 0x20) (start : Nat)
    (rest : List Char) : stringBody start (c :: rest) = pushPoint c.toNat (stringBody start rest) := by
  rw [stringBody]
  · rw [if_neg printable]
  all_goals simp_all

/-- The code points that are escaped by a letter, with their letters. -/
def escapeLetters : List (Nat × Char) :=
  [(0x22, '"'), (0x5C, '\\'), (0x0A, 'n'), (0x0D, 'r'), (0x09, 't'), (0x0C, 'f'), (0x08, 'b')]

/-- A code point is written by its letter, as it is, or by its units. -/
theorem escapePoint_cases (n : Nat) :
    (∃ c, (n, c) ∈ escapeLetters ∧ escapePoint n = String.ofList ['\\', c]) ∨
      (n ∉ escapeLetters.map Prod.fst ∧ 0x20 ≤ n ∧ n < 0x7F ∧ escapePoint n = String.singleton (Char.ofNat n)) ∨
      (n < 0x10000 ∧ escapePoint n = "\\u" ++ Text.hex 4 n) ∨
      (¬ n < 0x10000 ∧ escapePoint n = "\\u" ++ Text.hex 4 (0xD800 + (n - 0x10000) / 0x400) ++
        "\\u" ++ Text.hex 4 (0xDC00 + (n - 0x10000) % 0x400)) := by
  by_cases quote : n = 0x22
  · subst quote
    exact .inl ⟨'"', by decide, rfl⟩
  by_cases slash : n = 0x5C
  · subst slash
    exact .inl ⟨'\\', by decide, rfl⟩
  by_cases feed : n = 0x0A
  · subst feed
    exact .inl ⟨'n', by decide, rfl⟩
  by_cases back : n = 0x0D
  · subst back
    exact .inl ⟨'r', by decide, rfl⟩
  by_cases tab : n = 0x09
  · subst tab
    exact .inl ⟨'t', by decide, rfl⟩
  by_cases page : n = 0x0C
  · subst page
    exact .inl ⟨'f', by decide, rfl⟩
  by_cases erase : n = 0x08
  · subst erase
    exact .inl ⟨'b', by decide, rfl⟩
  rw [escapePoint, if_neg quote, if_neg slash, if_neg feed, if_neg back, if_neg tab, if_neg page, if_neg erase]
  refine .inr ?_
  split
  · next printable =>
    exact .inl ⟨by simp [escapeLetters, *], printable.1, printable.2, rfl⟩
  split
  · next small => exact .inr (.inl ⟨small, rfl⟩)
  · next large => exact .inr (.inr ⟨large, rfl⟩)

/-- **A code point is read back as its units.** -/
theorem stringBody_escape {n : Nat} (bound : n < 0x110000) (start : Nat) (q : Char) (rest : List Char) :
    stringBody start ((escapePoint n).toList ++ q :: rest) = pushPoints (units n) (stringBody start (q :: rest)) := by
  rcases escapePoint_cases n with ⟨c, letter, text⟩ | ⟨other, low, high, text⟩ | ⟨small, text⟩ | ⟨large, text⟩
  all_goals rw [text]
  · have all : ∀ p ∈ escapeLetters, letterEscape? p.2 = some p.1 ∧ p.1 < 0x10000 := by decide
    obtain ⟨escapes, small⟩ := all _ letter
    rw [String.toList_ofList, units_of_lt small]
    exact stringBody_letter escapes start (q :: rest)
  · simp only [escapeLetters, List.map_cons, List.mem_cons, not_or] at other
    have value : (Char.ofNat n).toNat = n := Text.toNat_ofNat (.inl (by omega))
    have differs : ∀ c : Char, n ≠ c.toNat → Char.ofNat n ≠ c := by
      rintro c differ rfl
      exact differ value.symm
    rw [String.toList_singleton, List.singleton_append,
      stringBody_plain (differs _ other.1) (differs _ other.2.1) (by omega), value, units_of_lt (by omega)]
    rfl
  · rw [stringBody_unit small, units_of_lt small]
    rfl
  · obtain ⟨c, cs, tail⟩ : ∃ c cs, ("\\u" ++ Text.hex 4 (0xDC00 + (n - 0x10000) % 0x400)).toList = c :: cs :=
      List.exists_cons_of_ne_nil (by rw [String.toList_append]; simp)
    rw [String.append_assoc, String.toList_append, List.append_assoc, tail, List.cons_append,
      stringBody_unit (by omega), ← List.cons_append, ← tail, stringBody_unit (by omega), units_of_not_lt large]
    rfl

theorem stringBody_escapes {ps : List Nat} (bound : ∀ p ∈ ps, p < 0x110000) (start : Nat) (rest : List Char) :
    stringBody start ((String.join (ps.map escapePoint)).toList ++ '"' :: rest) = .ok (ps.flatMap units, rest) := by
  induction ps with
  | nil => simp [stringBody]
  | cons p ps ih =>
    have tail : ∃ q cs, (String.join (ps.map escapePoint)).toList ++ '"' :: rest = q :: cs :=
      List.exists_cons_of_ne_nil (by simp)
    obtain ⟨q, cs, text⟩ := tail
    replace ih := ih fun x hx => bound x (List.mem_cons_of_mem p hx)
    rw [List.map_cons, String.join_cons, String.toList_append, List.append_assoc]
    rw [text] at ih ⊢
    rw [stringBody_escape (bound p List.mem_cons_self), ih, List.flatMap_cons]
    by_cases small : p < 0x10000
    · rw [units_of_lt small]
      rfl
    · rw [units_of_not_lt small]
      rfl

/-- Units that are pairs are joined again. -/
theorem joinPairs_units {ps : List Nat} (bound : ∀ p ∈ ps, p < 0x110000 ∧ Text.isSurrogate p = false) :
    joinPairs (ps.flatMap units) = ps := by
  induction ps with
  | nil => rfl
  | cons p ps ih =>
    obtain ⟨small, whole⟩ := bound p List.mem_cons_self
    replace ih := ih fun x hx => bound x (List.mem_cons_of_mem p hx)
    rw [List.flatMap_cons]
    simp only [Text.isSurrogate, Bool.and_eq_false_iff, decide_eq_false_iff_not] at whole
    by_cases single : p < 0x10000
    · rw [units_of_lt single, List.singleton_append]
      cases rest : ps.flatMap units with
      | nil =>
        rw [rest] at ih
        rw [← ih]
        rfl
      | cons low others =>
        rw [rest] at ih
        have high : isHigh p = false := by
          simp only [isHigh, Bool.and_eq_false_iff, decide_eq_false_iff_not]
          omega
        rw [joinPairs, high, Bool.false_and, if_neg Bool.false_ne_true, ih]
    · have high : isHigh (0xD800 + (p - 0x10000) / 0x400) = true := by
        simp only [isHigh, Bool.and_eq_true, decide_eq_true_eq]
        omega
      have low : isLow (0xDC00 + (p - 0x10000) % 0x400) = true := by
        simp only [isLow, Bool.and_eq_true, decide_eq_true_eq]
        omega
      have value : 0x10000 + (0xD800 + (p - 0x10000) / 0x400 - 0xD800) * 0x400 +
          (0xDC00 + (p - 0x10000) % 0x400 - 0xDC00) = p := by omega
      rw [units_of_not_lt single, List.cons_append, List.singleton_append, joinPairs, high, low, Bool.true_and, if_pos rfl, ih,
        value]

/-! ### Texts -/

theorem ofPoint_toNat {c : Char} (whole : Text.isStandIn c = false) :
    Text.point c = c.toNat ∧ Text.ofPoint c.toNat = c ∧ c.toNat < 0x110000 ∧ Text.isSurrogate c.toNat = false := by
  have valid : c.toNat.isValidChar := c.valid
  have range : c.toNat < 0x110000 ∧ Text.isSurrogate c.toNat = false := by
    simp only [Text.isSurrogate, Bool.and_eq_false_iff, decide_eq_false_iff_not]
    simp only [Nat.isValidChar] at valid
    omega
  refine ⟨?_, ?_, range⟩
  · rw [Text.point, whole, if_neg Bool.false_ne_true]
  · rw [Text.ofPoint, range.2, if_neg Bool.false_ne_true, Char.ofNat_toNat]

/-- **Texts without lone surrogates read back.** -/
theorem stringBody_string {s : String} (whole : Text.isWhole s = true) (start : Nat) (rest : List Char) :
    ∃ points, stringBody start ((String.join ((Text.points s).map escapePoint)).toList ++ '"' :: rest) =
      .ok (points, rest) ∧ textOf points = s := by
  have chars : ∀ c ∈ s.toList, Text.isStandIn c = false := by
    simpa [Text.isWhole, Bool.not_eq_true'] using whole
  have points : ∀ p ∈ Text.points s, p < 0x110000 ∧ Text.isSurrogate p = false := by
    intro p hp
    obtain ⟨c, hc, rfl⟩ := List.mem_map.1 hp
    obtain ⟨same, -, range⟩ := ofPoint_toNat (chars c hc)
    rwa [same]
  refine ⟨_, stringBody_escapes (fun p hp => (points p hp).1) start rest, ?_⟩
  have back : (Text.points s).map Text.ofPoint = s.toList := by
    rw [Text.points, List.map_map]
    refine (List.map_congr_left fun c hc => ?_).trans (List.map_id _)
    obtain ⟨same, undo, -⟩ := ofPoint_toNat (chars c hc)
    rw [Function.comp, same, undo]
    rfl
  rw [textOf, joinPairs_units points, back, String.ofList_toList]

end ServerTrial.Json
