import ServerTrial.Proofs.LuaLexer

/-!
# Quotation marks

Literals between quotation marks, read on their own: by the rules of the language, whoever wrote them.  A number behind
a backslash has up to three digits, so where it ends depends on what follows it.

* `Quotation.contents`, `Quotation.literal`: the bytes of a literal, and what follows it;
* `Quotation.contents_quoteUnit`: a byte as it is written is read as that byte, in front of anything;
* `Quotation.quoted_literal`: so a text between double quotes is printable ASCII, is one literal for the bytes of the
  text whatever follows it, and differs from that of any other text.
-/

namespace ServerTrial.Lua.Quotation

/-- What letters and signs stand for behind a backslash. -/
def escapes : List (Char × Nat) :=
  [('a', 7), ('b', 8), ('f', 12), ('n', 10), ('r', 13), ('t', 9), ('v', 11), ('\\', 0x5C), ('"', 0x22), ('\'', 0x27),
    ('\n', 10)]

/-- The byte whose number is written in digits. -/
def byte? (digits : List Char) : Option Nat :=
  let n := Nat.ofDigitChars 10 digits 0
  if n < 256 then some n else none

/-- The digits in front of a text, up to three. -/
def digits (cs : List Char) : List Char := (cs.take 3).takeWhile Text.isDigit

/-- The byte that is written behind a backslash, and what follows it. -/
def escape : List Char → Option (Nat × List Char)
  | [] => none
  | c :: cs =>
    if Text.isDigit c then (byte? (digits (c :: cs))).map (·, (c :: cs).drop (digits (c :: cs)).length)
    else (escapes.lookup c).map (·, cs)

theorem digits_length_pos {c : Char} (digit : Text.isDigit c = true) (cs : List Char) :
    0 < (digits (c :: cs)).length := by
  rw [digits, List.take_succ_cons, List.takeWhile_cons_of_pos digit]
  exact Nat.succ_pos _

theorem escape_length {cs rest : List Char} {byte : Nat} (h : escape cs = some (byte, rest)) :
    rest.length < cs.length := by
  cases cs with
  | nil => cases h
  | cons c cs =>
    rw [escape] at h
    split at h
    · next digit =>
      obtain ⟨_, _, same⟩ := Option.map_eq_some_iff.1 h
      have some' := digits_length_pos digit cs
      cases same
      rw [List.length_drop, List.length_cons]
      omega
    · obtain ⟨_, _, same⟩ := Option.map_eq_some_iff.1 h
      cases same
      exact Nat.lt_succ_self _

/-- The bytes up to the closing mark, and what follows it.  A line does not end before. -/
def contents (mark : Char) : List Char → Option (List Nat × List Char)
  | [] => none
  | c :: cs =>
    if c = mark then some ([], cs)
    else if c = '\\' then
      match h : escape cs with
      | some (byte, rest) =>
        have := escape_length h
        (contents mark rest).map fun read => (byte :: read.1, read.2)
      | none => none
    else if c = '\n' ∨ c = '\r' then none
    else (contents mark cs).map fun read => (Utf8.unitsOf c ++ read.1, read.2)
termination_by cs => cs.length

/-- The literal in front of a text: its bytes, and what follows it. -/
def literal (mark : Char) : List Char → Option (List Nat × List Char)
  | [] => none
  | c :: cs => if c = mark then contents mark cs else none

section Contents

variable {mark c : Char}

theorem contents_mark (cs : List Char) : contents mark (mark :: cs) = some ([], cs) := by
  rw [contents, if_pos rfl]

theorem contents_escape {cs rest : List Char} {byte : Nat} (other : '\\' ≠ mark)
    (h : escape cs = some (byte, rest)) :
    contents mark ('\\' :: cs) = (contents mark rest).map fun read => (byte :: read.1, read.2) := by
  rw [contents, if_neg other, if_pos rfl]
  split
  · next found =>
    rw [h] at found
    cases found
    rfl
  · next found =>
    rw [h] at found
    cases found

theorem contents_char (other : c ≠ mark) (slash : c ≠ '\\') (line : ¬(c = '\n' ∨ c = '\r')) (cs : List Char) :
    contents mark (c :: cs) = (contents mark cs).map fun read => (Utf8.unitsOf c ++ read.1, read.2) := by
  rw [contents, if_neg other, if_neg slash, if_neg line]

end Contents

/-! ### Bytes as they are written -/

/-- Three digits are read as one byte, also in front of more digits. -/
theorem escape_digits {n : Nat} (byte : n < 256) (cs : List Char) :
    escape (digitChar (n / 100) :: digitChar (n / 10) :: digitChar n :: cs) = some (n, cs) := by
  have three : digits (digitChar (n / 100) :: digitChar (n / 10) :: digitChar n :: cs) =
      [digitChar (n / 100), digitChar (n / 10), digitChar n] := by
    simp [digits, Reader.digit_digitChar]
  rw [escape, if_pos (Reader.digit_digitChar _), three, byte?, Reader.ofDigitChars_byte byte, if_pos byte]
  rfl

theorem contents_quoteUnit {n : Nat} (byte : n < 256) (cs : List Char) :
    contents '"' (quoteUnit n ++ cs) = (contents '"' cs).map fun read => (n :: read.1, read.2) := by
  unfold quoteUnit
  split
  · next special =>
    refine contents_escape (by decide) ?_
    rcases special with rfl | rfl
    · rfl
    · rfl
  · next plain =>
    split
    · next printable =>
      have own := Text.toNat_ofNat (n := n) (by unfold Nat.isValidChar; omega)
      have noQuote : Char.ofNat n ≠ '"' := fun same => plain (.inl (own ▸ same ▸ rfl))
      have noSlash : Char.ofNat n ≠ '\\' := fun same => plain (.inr (own ▸ same ▸ rfl))
      have noLine : ¬(Char.ofNat n = '\n' ∨ Char.ofNat n = '\r') := by
        rintro (same | same)
        · rw [same] at own
          exact absurd (own ▸ printable.1) (by decide)
        · rw [same] at own
          exact absurd (own ▸ printable.1) (by decide)
      have units : Utf8.unitsOf (Char.ofNat n) = [n] := by
        rw [Utf8.unitsOf, own, if_pos (by omega)]
      rw [List.singleton_append, contents_char noQuote noSlash noLine, units]
      rfl
    · exact contents_escape (by decide) (escape_digits byte cs)

theorem contents_quoteUnits {ns : List Nat} (byte : ∀ n ∈ ns, n < 256) (cs : List Char) :
    contents '"' (ns.flatMap quoteUnit ++ cs) = (contents '"' cs).map fun read => (ns ++ read.1, read.2) := by
  induction ns with
  | nil =>
    rw [List.flatMap_nil, List.nil_append]
    exact (Option.map_id' ..).symm
  | cons n ns ih =>
    obtain ⟨first, byte⟩ := List.forall_mem_cons.1 byte
    rw [List.flatMap_cons, List.append_assoc, contents_quoteUnit first, ih byte, Option.map_map]
    rfl

/-- Only printable ASCII is written for a byte. -/
theorem printable_quoteUnit (n : Nat) : ∀ c ∈ quoteUnit n, 0x20 ≤ c.toNat ∧ c.toNat < 0x7F := by
  have slash : 0x20 ≤ '\\'.toNat ∧ '\\'.toNat < 0x7F := by decide
  have digit : ∀ k, 0x20 ≤ (digitChar k).toNat ∧ (digitChar k).toNat < 0x7F := by
    intro k
    rw [toNat_digitChar]
    omega
  have own : 0x20 ≤ n ∧ n < 0x7F → 0x20 ≤ (Char.ofNat n).toNat ∧ (Char.ofNat n).toNat < 0x7F := by
    intro printable
    rwa [Text.toNat_ofNat (by unfold Nat.isValidChar; omega)]
  unfold quoteUnit
  split
  · next special =>
    simp only [List.forall_mem_cons, List.not_mem_nil, false_imp_iff, implies_true, and_true]
    exact ⟨slash, own (by omega)⟩
  · split
    · next printable =>
      simpa using own printable
    · simp only [List.forall_mem_cons, List.not_mem_nil, false_imp_iff, implies_true, and_true]
      exact ⟨slash, digit _, digit _, digit _⟩

/-! ### Texts -/

theorem literal_quoted (s : String) (rest : List Char) :
    literal '"' ((quoted s).toList ++ rest) = some (byteValues (textBytes s), rest) := by
  have byte : ∀ n ∈ byteValues (textBytes s), n < 256 := by
    intro n hn
    obtain ⟨b, -, rfl⟩ := List.mem_map.1 hn
    exact b.toNat_lt
  rw [toList_quoted, List.cons_append, literal, if_pos rfl, List.append_assoc, contents_quoteUnits byte,
    List.singleton_append, contents_mark, Option.map_some, List.append_nil]

/-- A digit behind the number of a byte belongs to the text. -/
example : literal '"' ((quoted "é1").toList ++ ['0']) = some ([0xC3, 0xA9, 0x31], ['0']) := by cbv

/-- **A text between double quotes.**  It is printable ASCII, it is one literal for exactly the bytes of the text,
whatever follows it, and no other text is written like it. -/
theorem quoted_literal (s : String) :
    (∀ c ∈ (quoted s).toList, 0x20 ≤ c.toNat ∧ c.toNat < 0x7F) ∧
    (∀ rest, literal '"' ((quoted s).toList ++ rest) = some (byteValues (textBytes s), rest)) ∧
    ∀ t, quoted t = quoted s → t = s := by
  refine ⟨?_, literal_quoted s, fun t same => ?_⟩
  · have mark : 0x20 ≤ '"'.toNat ∧ '"'.toNat < 0x7F := by decide
    rw [toList_quoted]
    refine List.forall_mem_cons.2 ⟨mark, List.forall_mem_append.2 ⟨fun c hc => ?_, List.forall_mem_singleton.2 mark⟩⟩
    obtain ⟨n, -, written⟩ := List.mem_flatMap.1 hc
    exact printable_quoteUnit n c written
  · have read := literal_quoted t []
    rw [same, literal_quoted s] at read
    have bytes : textBytes s = textBytes t := Utf8.byteValues_injective (Prod.mk.inj (Option.some.inj read)).1
    have decoded := Utf8.decode_eq_ok_iff.2 bytes
    rw [Utf8.decode_eq_ok_iff.2 (rfl : textBytes s = textBytes s)] at decoded
    exact (Except.ok.inj decoded).symm

end ServerTrial.Lua.Quotation
