import Mathlib
import ServerTrial.World.Tree

/-!
# Bytes and texts

* `Utf8.decode_eq_ok_iff`: bytes decode to a text exactly if they are the bytes of the text.

Encoding one character and reading in front of bytes are compared in numbers: `head_unitsOf` and `unitsOf_of_head` are
the two directions, and texts follow by induction.
-/

namespace ServerTrial.Utf8

/-- The bytes of a character, as numbers. -/
def unitsOf (c : Char) : List Nat :=
  let v := c.toNat
  if v ≤ 0x7F then [v]
  else if v ≤ 0x7FF then [v / 0x40 + 0xC0, v % 0x40 + 0x80]
  else if v ≤ 0xFFFF then [v / 0x1000 + 0xE0, v / 0x40 % 0x40 + 0x80, v % 0x40 + 0x80]
  else [v / 0x40000 + 0xF0, v / 0x1000 % 0x40 + 0x80, v / 0x40 % 0x40 + 0x80, v % 0x40 + 0x80]

/-- A character is no surrogate and lies below the end of the planes. -/
theorem toNat_valid (c : Char) : c.toNat < 0xD800 ∨ (0xDFFF < c.toNat ∧ c.toNat < 0x110000) := c.valid

theorem byteValues_utf8EncodeChar (c : Char) : byteValues (String.utf8EncodeChar c) = unitsOf c := by
  have valid := toNat_valid c
  unfold String.utf8EncodeChar unitsOf byteValues
  unfold Char.toNat at *
  dsimp only
  split
  · simp only [List.map_cons, List.map_nil, UInt8.toNat_ofNat', List.cons.injEq, and_true]
    omega
  · split
    · simp only [List.map_cons, List.map_nil, UInt8.toNat_ofNat', List.cons.injEq, and_true]
      omega
    · split
      · simp only [List.map_cons, List.map_nil, UInt8.toNat_ofNat', List.cons.injEq, and_true]
        omega
      · simp only [List.map_cons, List.map_nil, UInt8.toNat_ofNat', List.cons.injEq, and_true]
        omega

theorem toList_eq_data (bytes : ByteArray) : bytes.toList = bytes.data.toList := by
  have run : ∀ (i : Nat) (done : List UInt8),
      ByteArray.toList.loop bytes i done = done.reverse ++ bytes.data.toList.drop i := by
    intro i done
    induction i, done using ByteArray.toList.loop.induct bytes with
    | case1 i done inside ih =>
      have item : bytes.data.toList.drop i = bytes.get! i :: bytes.data.toList.drop (i + 1) := by
        rw [List.drop_eq_getElem_cons (l := bytes.data.toList) inside]
        exact congrArg (· :: _) (getElem!_pos bytes.data i inside).symm
      rw [ByteArray.toList.loop, if_pos inside, ih, item, List.reverse_cons, List.append_assoc]
      rfl
    | case2 i done outside =>
      rw [ByteArray.toList.loop, if_neg outside, List.drop_eq_nil_of_le (Nat.le_of_not_lt outside), List.append_nil]
  exact run 0 []

/-- The bytes of a text, as numbers, are those of its characters. -/
theorem byteValues_textBytes (s : String) : byteValues (textBytes s) = s.toList.flatMap unitsOf := by
  have bytes : textBytes s = s.toList.flatMap String.utf8EncodeChar := by
    rw [textBytes, toList_eq_data, String.toUTF8_eq_toByteArray, ← String.toByteArray_ofList.symm.trans
      (congrArg String.toByteArray String.ofList_toList), List.utf8Encode, List.toList_data_toByteArray]
  rw [bytes, byteValues, List.map_flatMap]
  exact congrArg (List.flatMap · s.toList) (funext byteValues_utf8EncodeChar)

/-! ### One character -/

theorem isTail_iff {b : Nat} : isTail b = true ↔ 0x80 ≤ b ∧ b ≤ 0xBF := by
  simp [isTail]

theorem isSecond_iff {a b : Nat} : isSecond a b = true ↔ (0x80 ≤ b ∧ b ≤ 0xBF) ∧ (a = 0xE0 → 0xA0 ≤ b) ∧
    (a = 0xED → b < 0xA0) ∧ (a = 0xF0 → 0x90 ≤ b) ∧ (a = 0xF4 → b < 0x90) := by
  simp only [isSecond, Bool.and_eq_true, isTail_iff, Bool.not_eq_true', Bool.and_eq_false_iff, beq_eq_false_iff_ne,
    decide_eq_false_iff_not]
  omega

/-- In front of the bytes of a character stands the character. -/
theorem head_unitsOf (c : Char) (more : List Nat) :
    ∃ a rest, unitsOf c = a :: rest ∧ head a (rest ++ more) = .point c.toNat (rest.length + 1) := by
  have valid := toNat_valid c
  generalize hv : c.toNat = v at valid
  unfold unitsOf
  simp only [hv]
  split
  · refine ⟨_, _, rfl, ?_⟩
    have one : width v = 1 := by simp (disch := omega) only [width, if_pos]
    simp only [head, one, List.length_nil]
  · split
    · refine ⟨_, _, rfl, ?_⟩
      have two : width (v / 0x40 + 0xC0) = 2 := by simp (disch := omega) only [width, if_pos, if_neg]
      have second : isSecond (v / 0x40 + 0xC0) (v % 0x40 + 0x80) = true := isSecond_iff.2 (by omega)
      simp only [head, two, List.cons_append, if_pos second, List.length_cons, List.length_nil, Head.point.injEq, and_true]
      omega
    · split
      · refine ⟨_, _, rfl, ?_⟩
        have three : width (v / 0x1000 + 0xE0) = 3 := by simp (disch := omega) only [width, if_pos, if_neg]
        have second : isSecond (v / 0x1000 + 0xE0) (v / 0x40 % 0x40 + 0x80) = true := isSecond_iff.2 (by omega)
        have third : isTail (v % 0x40 + 0x80) = true := isTail_iff.2 (by omega)
        simp only [head, three, List.cons_append, second, Bool.not_true, Bool.false_eq_true, if_false, if_pos third,
          List.length_cons, List.length_nil, Head.point.injEq, and_true]
        omega
      · refine ⟨_, _, rfl, ?_⟩
        have four : width (v / 0x40000 + 0xF0) = 4 := by simp (disch := omega) only [width, if_pos, if_neg]
        have second : isSecond (v / 0x40000 + 0xF0) (v / 0x1000 % 0x40 + 0x80) = true := isSecond_iff.2 (by omega)
        have third : isTail (v / 0x40 % 0x40 + 0x80) = true := isTail_iff.2 (by omega)
        have fourth : isTail (v % 0x40 + 0x80) = true := isTail_iff.2 (by omega)
        simp only [head, four, List.cons_append, second, third, Bool.not_true, Bool.false_eq_true, if_false,
          if_pos fourth, List.length_cons, List.length_nil, Head.point.injEq, and_true]
        omega

theorem unitsOf_length_pos (c : Char) : 0 < (unitsOf c).length := by
  obtain ⟨a, rest, units, -⟩ := head_unitsOf c []
  rw [units]
  exact Nat.succ_pos _

theorem width_bounds (a : Nat) : (width a = 1 → a < 0x80) ∧ (width a = 2 → 0xC2 ≤ a ∧ a < 0xE0) ∧
    (width a = 3 → 0xE0 ≤ a ∧ a < 0xF0) ∧ (width a = 4 → 0xF0 ≤ a ∧ a < 0xF5) := by
  unfold width
  grind

/-- The bytes of the character that a number is. -/
theorem unitsOf_ofNat {n : Nat} (valid : n.isValidChar) : unitsOf (Char.ofNat n) =
    if n ≤ 0x7F then [n]
    else if n ≤ 0x7FF then [n / 0x40 + 0xC0, n % 0x40 + 0x80]
    else if n ≤ 0xFFFF then [n / 0x1000 + 0xE0, n / 0x40 % 0x40 + 0x80, n % 0x40 + 0x80]
    else [n / 0x40000 + 0xF0, n / 0x1000 % 0x40 + 0x80, n / 0x40 % 0x40 + 0x80, n % 0x40 + 0x80] := by
  simp only [unitsOf, Text.toNat_ofNat valid]

/-- A character that is read in front stands there with its bytes. -/
theorem unitsOf_of_head {a n size : Nat} {rest : List Nat} (h : head a rest = .point n size) :
    n.isValidChar ∧ a :: rest = unitsOf (Char.ofNat n) ++ (a :: rest).drop size := by
  obtain ⟨one, two, three, four⟩ := width_bounds a
  unfold head at h
  split at h
  · next w =>
    obtain ⟨rfl, rfl⟩ := Head.point.inj h
    have bound := one w
    have valid : a.isValidChar := .inl (by omega)
    refine ⟨valid, ?_⟩
    rw [unitsOf_ofNat valid, if_pos (by omega)]
    rfl
  · next w =>
    have bound := two w
    split at h
    · cases h
    · next b rest =>
      split at h
      · next second =>
        obtain ⟨rfl, rfl⟩ := Head.point.inj h
        have second := isSecond_iff.1 second
        have valid : ((a - 0xC0) * 0x40 + (b - 0x80)).isValidChar := .inl (by omega)
        refine ⟨valid, ?_⟩
        rw [unitsOf_ofNat valid, if_neg (by omega), if_pos (by omega)]
        simp only [List.cons_append, List.nil_append, List.drop_succ_cons, List.drop_zero, List.cons.injEq, and_true]
        omega
      · cases h
  · next w =>
    have bound := three w
    split at h
    · cases h
    · next b rest =>
      split at h
      · cases h
      · next second =>
        split at h
        · cases h
        · next c rest =>
          split at h
          · next third =>
            obtain ⟨rfl, rfl⟩ := Head.point.inj h
            have second := isSecond_iff.1 (by simpa using second)
            have third := isTail_iff.1 third
            have valid : ((a - 0xE0) * 0x1000 + (b - 0x80) * 0x40 + (c - 0x80)).isValidChar := by
              unfold Nat.isValidChar
              omega
            refine ⟨valid, ?_⟩
            rw [unitsOf_ofNat valid, if_neg (by omega), if_neg (by omega), if_pos (by omega)]
            simp only [List.cons_append, List.nil_append, List.drop_succ_cons, List.drop_zero, List.cons.injEq, and_true]
            omega
          · cases h
  · next w =>
    have bound := four w
    split at h
    · cases h
    · next b rest =>
      split at h
      · cases h
      · next second =>
        split at h
        · cases h
        · next c rest =>
          split at h
          · cases h
          · next third =>
            split at h
            · cases h
            · next d rest =>
              split at h
              · next fourth =>
                obtain ⟨rfl, rfl⟩ := Head.point.inj h
                have second := isSecond_iff.1 (by simpa using second)
                have third := isTail_iff.1 (by simpa using third)
                have fourth := isTail_iff.1 fourth
                have valid : ((a - 0xF0) * 0x40000 + (b - 0x80) * 0x1000 + (c - 0x80) * 0x40 +
                    (d - 0x80)).isValidChar := by
                  unfold Nat.isValidChar
                  omega
                refine ⟨valid, ?_⟩
                rw [unitsOf_ofNat valid, if_neg (by omega), if_neg (by omega), if_neg (by omega)]
                simp only [List.cons_append, List.nil_append, List.drop_succ_cons, List.drop_zero, List.cons.injEq,
                  and_true]
                omega
              · cases h
  · cases h

/-! ### Texts -/

theorem decodeFrom_eq_ok_iff {cs : List Char} :
    ∀ {fuel position : Nat} {bytes : List Nat}, bytes.length ≤ fuel →
      (decodeFrom fuel position bytes = .ok cs ↔ bytes = cs.flatMap unitsOf) := by
  induction cs with
  | nil =>
    intro fuel position bytes enough
    cases bytes with
    | nil => cases fuel <;> simp [decodeFrom]
    | cons a rest =>
      cases fuel with
      | zero => simp at enough
      | succ fuel =>
        rw [decodeFrom]
        split
        · split <;> simp
        · simp
  | cons c cs ih =>
    intro fuel position bytes enough
    constructor
    · intro h
      cases fuel with
      | zero => simp [decodeFrom] at h
      | succ fuel =>
        cases bytes with
        | nil => simp [decodeFrom] at h
        | cons a rest =>
          rw [decodeFrom] at h
          split at h
          · next n size hn =>
            obtain ⟨valid, front⟩ := unitsOf_of_head hn
            split at h
            · next cs' hcs =>
              simp only [Except.ok.injEq, List.cons.injEq] at h
              obtain ⟨rfl, rfl⟩ := h
              have longer := congrArg List.length front
              have some := unitsOf_length_pos (Char.ofNat n)
              have shorter : ((a :: rest).drop size).length ≤ fuel := by
                rw [List.length_append] at longer
                omega
              rw [List.flatMap_cons, ← (ih shorter).1 hcs]
              exact front
            · cases h
          · cases h
    · rintro rfl
      obtain ⟨a, rest, units, front⟩ := head_unitsOf c (cs.flatMap unitsOf)
      rw [List.flatMap_cons, units] at enough ⊢
      cases fuel with
      | zero => simp at enough
      | succ fuel =>
        rw [List.cons_append, decodeFrom, front]
        have left : (a :: (rest ++ cs.flatMap unitsOf)).drop (rest.length + 1) = cs.flatMap unitsOf := by
          rw [List.drop_succ_cons, List.drop_left]
        have shorter : (cs.flatMap unitsOf).length ≤ fuel := by
          simp only [List.cons_append, List.length_cons, List.length_append] at enough
          omega
        dsimp only
        rw [left, (ih shorter).2 rfl, Char.ofNat_toNat]

theorem byteValues_injective {bytes bytes' : List UInt8} (h : byteValues bytes = byteValues bytes') :
    bytes = bytes' :=
  (List.map_inj_right fun _ _ => UInt8.toNat_inj.1).1 h

/-- **Bytes decode to a text exactly if they are its bytes.** -/
theorem decode_eq_ok_iff {bytes : List UInt8} {s : String} :
    decode (byteValues bytes) = .ok s ↔ bytes = textBytes s := by
  have chars : decode (byteValues bytes) = .ok s ↔
      decodeFrom (byteValues bytes).length 0 (byteValues bytes) = .ok s.toList := by
    unfold decode
    cases decodeFrom (byteValues bytes).length 0 (byteValues bytes) with
    | error f => simp [Except.map]
    | ok cs =>
      simp only [Except.map, Except.ok.injEq]
      exact ⟨fun h => by rw [← h, String.toList_ofList], fun h => by rw [h, String.ofList_toList]⟩
  rw [chars, decodeFrom_eq_ok_iff (Nat.le_refl _), ← byteValues_textBytes]
  exact ⟨byteValues_injective, congrArg byteValues⟩

end ServerTrial.Utf8

namespace ServerTrial

/-! ### Pieces of a text -/

/-- Pieces with a separator between them, and one at the end. -/
theorem intercalate_concat {α : Type} (sep : α) (x : List α) (xs : List (List α)) :
    [sep].intercalate (x :: xs) ++ [sep] = (x :: xs).flatMap (· ++ [sep]) := by
  induction xs generalizing x with
  | nil => simp
  | cons y xs ih =>
    rw [List.intercalate_cons_cons, List.append_assoc, ih, List.flatMap_cons, List.flatMap_cons, List.flatMap_cons]

end ServerTrial
