import ServerTrial.Proofs.LuaLiteral
import ServerTrial.Proofs.NumberText
import ServerTrial.Lua.Injection

/-!
# Tokens

The tokens of the part of the language that blocks of statements are written in.  Characters are gone through one
by one (`Reader.step`).  No more is read than is understood: an escape of another form, a carriage return in a text
or a comment makes a text unreadable.

* `Reader.lex_name`, `Reader.lex_natural`: names and numbers;
* `Reader.lex_quoted`, `Reader.lex_longString`: literals stand for the texts they were made from.
-/

namespace ServerTrial.Lua

namespace Reader

inductive Token where
  | name (n : String)
  /-- A word that cannot be a name. -/
  | keyword (w : String)
  | text (s : String)
  | number (n : Nat)
  | symbol (c : Char)
  /-- The sign of a comparison. -/
  | equals
  deriving DecidableEq, Repr

/-- The words that cannot be names. -/
def reserved : List String :=
  ["and", "break", "do", "else", "elseif", "end", "false", "for", "function", "goto", "if", "in", "local", "nil",
    "not", "or", "repeat", "return", "then", "true", "until", "while"]

/-- What has been read of a token. -/
inductive Mode where
  | idle
  | word (read : List Char)
  | number (read : List Char)
  /-- Between quotes; the bytes so far. -/
  | quoted (mark : Char) (bytes : List Nat)
  /-- Behind a backslash. -/
  | escape (mark : Char) (bytes : List Nat)
  /-- In an escape by a number. -/
  | decimal (mark : Char) (bytes : List Nat) (digits : List Char)
  | minus
  | equal
  /-- Behind a bracket and equals signs. -/
  | bracket (level : Nat)
  /-- Right behind a long bracket. -/
  | opened (level : Nat)
  /-- Between long brackets. -/
  | long (level : Nat) (read : List Char)
  deriving DecidableEq, Repr

/-- The symbols that stand for themselves, whatever comes next. -/
def symbols : List Char := ['(', ')', '\x7b', '\x7d', ']', ',', '.']

/-- A character at the beginning of a token. -/
def start (c : Char) : Option (List Token × Mode) :=
  if c = ' ' ∨ c = '\n' then some ([], .idle)
  else if Text.isDigit c then some ([], .number [c])
  else if isWordChar c then some ([], .word [c])
  else if c = '"' ∨ c = '\'' then some ([], .quoted c [])
  else if c = '[' then some ([], .bracket 0)
  else if c = '=' then some ([], .equal)
  else if c = '-' then some ([], .minus)
  else if symbols.contains c then some ([.symbol c], .idle)
  else none

/-- A character behind a token that it ends. -/
def startAfter (t : Token) (c : Char) : Option (List Token × Mode) :=
  (start c).map fun p => (t :: p.1, p.2)

def wordToken (read : List Char) : Token :=
  let w := String.ofList read
  if reserved.contains w then .keyword w else .name w

/-- A character between long brackets; the text ends where the closing bracket stands for the first time. -/
def stepLong (level : Nat) (read : List Char) (c : Char) : Option (List Token × Mode) :=
  let read := read ++ [c]
  if c = '\r' then none
  else if (closing level).isSuffixOf read then
    some ([.text (String.ofList (read.take (read.length - (closing level).length)))], .idle)
  else some ([], .long level read)

/-- The next character. -/
def step : Mode → Char → Option (List Token × Mode)
  | .idle, c => start c
  | .word read, c => if isWordChar c then some ([], .word (read ++ [c])) else startAfter (wordToken read) c
  | .number read, c =>
    if Text.isDigit c then some ([], .number (read ++ [c]))
    else if isWordChar c then none
    else startAfter (.number (Nat.ofDigitChars 10 read 0)) c
  | .quoted mark bytes, c =>
    if c = mark then
      match Utf8.decode bytes with
      | .ok s => some ([.text s], .idle)
      | .error _ => none
    else if c = '\\' then some ([], .escape mark bytes)
    else if 0x20 ≤ c.toNat ∧ c.toNat < 0x7F then some ([], .quoted mark (bytes ++ [c.toNat]))
    else none
  | .escape mark bytes, c =>
    if Text.isDigit c then some ([], .decimal mark bytes [c])
    else if c = '\\' ∨ c = '"' ∨ c = '\'' then some ([], .quoted mark (bytes ++ [c.toNat]))
    else none
  | .decimal mark bytes digits, c =>
    let digits := digits ++ [c]
    if !Text.isDigit c then none
    else if digits.length < 3 then some ([], .decimal mark bytes digits)
    else
      let n := Nat.ofDigitChars 10 digits 0
      if n < 256 then some ([], .quoted mark (bytes ++ [n])) else none
  | .minus, c => if c = '-' then none else startAfter (.symbol '-') c
  | .equal, c => if c = '=' then some ([.equals], .idle) else startAfter (.symbol '=') c
  | .bracket level, c =>
    if c = '[' then some ([], .opened level)
    else if c = '=' then some ([], .bracket (level + 1))
    else if level = 0 then startAfter (.symbol '[') c
    else none
  | .opened level, c => if c = '\n' then some ([], .long level []) else stepLong level [] c
  | .long level read, c => stepLong level read c

/-- The tokens of what is left of a text. -/
def lex : Mode → List Char → Option (List Token)
  | .idle, [] => some []
  | _, [] => none
  | m, c :: cs =>
    match step m c with
    | some (out, next) => (lex next cs).map (out ++ ·)
    | none => none

/-- The tokens of a text.  A word at its end ends there. -/
def tokens (text : String) : Option (List Token) := lex .idle (text.toList ++ ['\n'])

/-! ### Characters to tokens -/

theorem lex_cons (m : Mode) (c : Char) (cs : List Char) : lex m (c :: cs) =
    match step m c with
    | some (out, next) => (lex next cs).map (out ++ ·)
    | none => none := by
  cases m <;> rfl

section Lex

variable {m : Mode} {c : Char}

theorem lex_silent (next : Mode) (h : step m c = some ([], next)) (cs : List Char) : lex m (c :: cs) = lex next cs := by
  rw [lex_cons, h]
  exact Option.map_id' ..

theorem lex_ends {next : Mode} {t : Token} (h : step m c = some ([t], next)) (cs : List Char) :
    lex m (c :: cs) = (lex next cs).map (t :: ·) := by
  rw [lex_cons, h]
  rfl

/-- A character that ends a token begins the next one. -/
theorem lex_startAfter {t : Token} (h : step m c = startAfter t c) (cs : List Char) :
    lex m (c :: cs) = (lex .idle (c :: cs)).map (t :: ·) := by
  rw [lex_cons, lex_cons, h, startAfter, step]
  cases start c with
  | none => rfl
  | some p => simp [Option.map_map, Function.comp_def]

theorem lex_blank (cs : List Char) : lex .idle (' ' :: cs) = lex .idle cs := lex_silent _ rfl cs

theorem lex_newline (cs : List Char) : lex .idle ('\n' :: cs) = lex .idle cs := lex_silent _ rfl cs

theorem lex_symbol (h : start c = some ([.symbol c], .idle)) (cs : List Char) :
    lex .idle (c :: cs) = (lex .idle cs).map (.symbol c :: ·) := lex_ends (m := .idle) h cs

theorem lex_equal (other : c ≠ '=') (cs : List Char) :
    lex .idle ('=' :: c :: cs) = (lex .idle (c :: cs)).map (.symbol '=' :: ·) := by
  rw [lex_silent .equal rfl]
  exact lex_startAfter (by rw [step, if_neg other]) cs

theorem lex_equals (cs : List Char) : lex .idle ('=' :: '=' :: cs) = (lex .idle cs).map (.equals :: ·) := by
  rw [lex_silent .equal rfl]
  exact lex_ends rfl cs

theorem lex_bracket (other : c ≠ '[') (sign : c ≠ '=') (cs : List Char) :
    lex .idle ('[' :: c :: cs) = (lex .idle (c :: cs)).map (.symbol '[' :: ·) := by
  rw [lex_silent (.bracket 0) rfl]
  exact lex_startAfter (by rw [step, if_neg other, if_neg sign, if_pos rfl]) cs

theorem lex_minus (other : c ≠ '-') (cs : List Char) :
    lex .idle ('-' :: c :: cs) = (lex .idle (c :: cs)).map (.symbol '-' :: ·) := by
  rw [lex_silent .minus rfl]
  exact lex_startAfter (by rw [step, if_neg other]) cs

/-! #### Words and numbers -/

theorem lex_word {w : List Char} (chars : ∀ d ∈ w, isWordChar d = true) (ends : isWordChar c = false)
    (read cs : List Char) :
    lex (.word read) (w ++ c :: cs) = (lex .idle (c :: cs)).map (wordToken (read ++ w) :: ·) := by
  induction w generalizing read with
  | nil =>
    rw [List.nil_append, List.append_nil]
    exact lex_startAfter (by rw [step, if_neg (by simp [ends])]) cs
  | cons d w ih =>
    obtain ⟨first, chars⟩ := List.forall_mem_cons.1 chars
    rw [List.cons_append, lex_silent (.word (read ++ [d])) (by rw [step, if_pos first]), ih chars,
      List.append_assoc, List.singleton_append]

theorem wordChar_ne {d x : Char} (word : isWordChar d = true) (other : isWordChar x = false) : d ≠ x := by
  rintro rfl
  exact absurd word (by simp [other])

/-- A word at the beginning of a token. -/
theorem lex_word_start {d : Char} {w : List Char} (letter : Text.isDigit d = false)
    (chars : ∀ e ∈ d :: w, isWordChar e = true) (ends : isWordChar c = false) (cs : List Char) :
    lex .idle (d :: (w ++ c :: cs)) = (lex .idle (c :: cs)).map (wordToken (d :: w) :: ·) := by
  obtain ⟨first, chars⟩ := List.forall_mem_cons.1 chars
  have begin : start d = some ([], .word [d]) := by
    rw [start, if_neg (not_or.2 ⟨wordChar_ne first rfl, wordChar_ne first rfl⟩), if_neg (by simp [letter]),
      if_pos first]
  rw [lex_silent (.word [d]) (by rw [step, begin]), lex_word chars ends]
  rfl

theorem lex_number_rest {ds : List Char} (digits : ∀ d ∈ ds, Text.isDigit d = true) (ends : isWordChar c = false)
    (read cs : List Char) :
    lex (.number read) (ds ++ c :: cs) =
      (lex .idle (c :: cs)).map (.number (Nat.ofDigitChars 10 (read ++ ds) 0) :: ·) := by
  have other : Text.isDigit c = false := by
    rw [isWordChar, Bool.or_eq_false_iff, Bool.or_eq_false_iff] at ends
    exact ends.1.2
  induction ds generalizing read with
  | nil =>
    rw [List.nil_append, List.append_nil]
    exact lex_startAfter (by rw [step, if_neg (by simp [other]), if_neg (by simp [ends])]) cs
  | cons d ds ih =>
    obtain ⟨first, digits⟩ := List.forall_mem_cons.1 digits
    rw [List.cons_append, lex_silent (.number (read ++ [d])) (by rw [step, if_pos first]), ih digits,
      List.append_assoc, List.singleton_append]

/-- A natural number is read as itself. -/
theorem lex_natural (n : Nat) (ends : isWordChar c = false) (cs : List Char) :
    lex .idle (Nat.toDigits 10 n ++ c :: cs) = (lex .idle (c :: cs)).map (.number n :: ·) := by
  have digits : ∀ d ∈ Nat.toDigits 10 n, Text.isDigit d = true := Json.digits_toDigits n
  have value := Nat.ofDigitChars_ten_toDigits (n := n)
  obtain ⟨d, ds, written⟩ := List.exists_cons_of_ne_nil (Nat.toDigits_ne_nil (n := n) (b := 10))
  rw [written] at digits value ⊢
  obtain ⟨first, rest⟩ := List.forall_mem_cons.1 digits
  have word : isWordChar d = true := by simp [isWordChar, first]
  have begin : start d = some ([], .number [d]) := by
    rw [start, if_neg (not_or.2 ⟨wordChar_ne word rfl, wordChar_ne word rfl⟩), if_pos first]
  rw [List.cons_append, lex_silent (.number [d]) (by rw [step, begin]), lex_number_rest rest ends,
    List.singleton_append, value]

/-! #### Literals -/

theorem digit_digitChar (n : Nat) : Text.isDigit (digitChar n) = true := by
  have bound := Nat.mod_lt n (by decide : 10 > 0)
  have low : '0' ≤ digitChar n := UInt32.le_iff_toNat_le.2 (by
    have := toNat_digitChar n
    change 0x30 ≤ (digitChar n).toNat
    omega)
  have high : digitChar n ≤ '9' := UInt32.le_iff_toNat_le.2 (by
    have := toNat_digitChar n
    change (digitChar n).toNat ≤ 0x39
    omega)
  simp [Text.isDigit, low, high]

/-- The digits of an escape give the byte back. -/
theorem ofDigitChars_byte {n : Nat} (byte : n < 256) :
    Nat.ofDigitChars 10 [digitChar (n / 100), digitChar (n / 10), digitChar n] 0 = n := by
  simp only [Nat.ofDigitChars, List.foldl_cons, List.foldl_nil, toNat_digitChar]
  have zero : '0'.toNat = 0x30 := rfl
  omega

/-- A byte between double quotes is read as itself. -/
theorem lex_quoteUnit {n : Nat} (byte : n < 256) (bytes : List Nat) (cs : List Char) :
    lex (.quoted '"' bytes) (quoteUnit n ++ cs) = lex (.quoted '"' (bytes ++ [n])) cs := by
  have slash : step (.quoted '"' bytes) '\\' = some ([], .escape '"' bytes) := rfl
  unfold quoteUnit
  split
  next special =>
    rw [List.cons_append, lex_silent _ slash]
    rcases special with rfl | rfl
    · exact lex_silent _ rfl cs
    · exact lex_silent _ rfl cs
  next plain =>
    split
    next printable =>
      have own := Text.toNat_ofNat (n := n) (by unfold Nat.isValidChar; omega)
      have noQuote : Char.ofNat n ≠ '"' := fun same => plain (.inl (own ▸ same ▸ rfl))
      have noSlash : Char.ofNat n ≠ '\\' := fun same => plain (.inr (own ▸ same ▸ rfl))
      refine lex_silent _ ?_ cs
      rw [step, if_neg noQuote, if_neg noSlash, own, if_pos printable]
    next =>
      have value := ofDigitChars_byte byte
      rw [List.cons_append, lex_silent _ slash, List.cons_append,
        lex_silent (.decimal '"' bytes [digitChar (n / 100)]) (by rw [step, if_pos (digit_digitChar _)]),
        List.cons_append,
        lex_silent (.decimal '"' bytes [digitChar (n / 100), digitChar (n / 10)])
          (by simp [step, digit_digitChar]),
        List.cons_append, List.nil_append]
      refine lex_silent _ ?_ cs
      simp [step, digit_digitChar, value, byte]

theorem lex_quoteUnits {ns : List Nat} (byte : ∀ n ∈ ns, n < 256) (bytes : List Nat) (cs : List Char) :
    lex (.quoted '"' bytes) (ns.flatMap quoteUnit ++ cs) = lex (.quoted '"' (bytes ++ ns)) cs := by
  induction ns generalizing bytes with
  | nil => rw [List.flatMap_nil, List.nil_append, List.append_nil]
  | cons n ns ih =>
    obtain ⟨first, byte⟩ := List.forall_mem_cons.1 byte
    rw [List.flatMap_cons, List.append_assoc, lex_quoteUnit first, ih byte, List.append_assoc, List.singleton_append]

/-- **A text between double quotes is read as the text.** -/
theorem lex_quoted (s : String) (cs : List Char) :
    lex .idle ((quoted s).toList ++ cs) = (lex .idle cs).map (.text s :: ·) := by
  have byte : ∀ n ∈ byteValues (textBytes s), n < 256 := by
    intro n hn
    obtain ⟨b, -, rfl⟩ := List.mem_map.1 hn
    exact b.toNat_lt
  have decoded : Utf8.decode (byteValues (textBytes s)) = .ok s := Utf8.decode_eq_ok_iff.2 rfl
  rw [toList_quoted, List.cons_append, lex_silent (.quoted '"' []) rfl, List.append_assoc,
    lex_quoteUnits byte, List.nil_append, List.singleton_append]
  exact lex_ends (by rw [step, if_pos rfl, decoded]) cs

/-- Between long brackets: whatever has been read, the rest up to the first closing bracket is read. -/
theorem lex_long {level : Nat} {text : List Char} (plain : '\r' ∉ text)
    (first : ∀ x y, x ++ (closing level ++ y) = text ++ closing level → y = []) (cs : List Char) (read rest : List Char)
    (split : read ++ rest = text ++ closing level) (some' : rest ≠ []) {m : Mode}
    (inside : ∀ c, step m c = stepLong level read c) :
    lex m (rest ++ cs) = (lex .idle cs).map (.text (String.ofList text) :: ·) := by
  induction rest generalizing read m with
  | nil => exact absurd rfl some'
  | cons c rest ih =>
    have next : (read ++ [c]) ++ rest = text ++ closing level := by rw [List.append_assoc, List.singleton_append, split]
    have noReturn : c ≠ '\r' := by
      rintro rfl
      have member : '\r' ∈ text ++ closing level := split ▸ List.mem_append_right _ List.mem_cons_self
      rcases List.mem_append.1 member with inText | inClosing
      · exact plain inText
      · simp [closing] at inClosing
    by_cases ends : (closing level).isSuffixOf (read ++ [c]) = true
    · obtain ⟨x, written⟩ := List.isSuffixOf_iff_suffix.1 ends
      have done : rest = [] := first x rest (by rw [← List.append_assoc, written, next])
      subst done
      rw [List.append_nil] at next
      rw [List.cons_append, List.nil_append]
      refine lex_ends ?_ cs
      rw [inside, stepLong, if_neg noReturn, if_pos ends, next, List.length_append, Nat.add_sub_cancel,
        List.take_left']
      rfl
    · have more : rest ≠ [] := by
        rintro rfl
        rw [List.append_nil] at next
        exact ends (List.isSuffixOf_iff_suffix.2 ⟨text, next.symm⟩)
      rw [List.cons_append, lex_silent (.long level (read ++ [c]))
        (by rw [inside, stepLong, if_neg noReturn, if_neg ends])]
      exact ih (read ++ [c]) next more fun _ => rfl

theorem lex_equalsSigns (n level : Nat) (cs : List Char) :
    lex (.bracket level) (List.replicate n '=' ++ cs) = lex (.bracket (level + n)) cs := by
  induction n generalizing level with
  | zero => rfl
  | succ n ih =>
    rw [List.replicate_succ, List.cons_append, lex_silent (.bracket (level + 1)) rfl, ih]
    congr 1
    congr 1
    omega

/-- **A text between long brackets is read as the text.** -/
theorem lex_longString {s : String} (plain : '\r' ∉ s.toList) (cs : List Char) :
    lex .idle ((longString s).toList ++ cs) = (lex .idle cs).map (.text s :: ·) := by
  have ends := level_closes_first s.toList
  rw [longString]
  rw [String.toList_ofList]
  simp only [List.cons_append, List.append_assoc, List.nil_append]
  rw [lex_silent (.bracket 0) rfl, lex_equalsSigns, Nat.zero_add,
    lex_silent (.opened (level s.toList)) rfl, lex_silent (.long (level s.toList) []) rfl,
    ← List.append_assoc,
    lex_long plain ends cs [] (s.toList ++ closing (level s.toList)) rfl (by simp [closing]) fun _ => rfl,
    String.ofList_toList]

end Lex

/-! ### Names -/

/-- A text that can be read as a name. -/
structure IsName (n : String) : Prop where
  letter : ∃ c cs, n.toList = c :: cs ∧ Text.isDigit c = false
  chars : ∀ c ∈ n.toList, isWordChar c = true
  free : n ∉ reserved

theorem IsName.literal {c : Char} {cs : List Char} (letter : Text.isDigit c = false)
    (chars : (c :: cs).all isWordChar = true) (free : String.ofList (c :: cs) ∉ reserved) :
    IsName (String.ofList (c :: cs)) := by
  refine ⟨⟨c, cs, String.toList_ofList, letter⟩, ?_, free⟩
  rw [String.toList_ofList]
  exact List.all_eq_true.1 chars

theorem lex_name {n : String} (name : IsName n) {c : Char} (ends : isWordChar c = false) (cs : List Char) :
    lex .idle (n.toList ++ c :: cs) = (lex .idle (c :: cs)).map (.name n :: ·) := by
  obtain ⟨d, w, written, letter⟩ := name.letter
  have chars := name.chars
  have token : wordToken n.toList = .name n := by
    rw [wordToken, String.ofList_toList, if_neg (by simpa using name.free)]
  rw [written] at chars token ⊢
  rw [List.cons_append, lex_word_start letter chars ends, token]

theorem lex_keyword {d : Char} {w : List Char} (letter : Text.isDigit d = false)
    (chars : (d :: w).all isWordChar = true) (listed : String.ofList (d :: w) ∈ reserved) {c : Char}
    (ends : isWordChar c = false) (cs : List Char) :
    lex .idle (d :: (w ++ c :: cs)) = (lex .idle (c :: cs)).map (.keyword (String.ofList (d :: w)) :: ·) := by
  rw [lex_word_start letter (List.all_eq_true.1 chars) ends, wordToken, if_pos (by simpa using listed)]

end Reader

end ServerTrial.Lua
