import ServerTrial.Proofs.StringText
import ServerTrial.Toml.Document
import ServerTrial.Toml.Writer

/-!
# TOML read back line by line

* `Toml.string_stringText`: every text is read back from its form in double quotes;
* `Toml.ReadBack`: the values that are read back from the end of a line;
* `Toml.Line`: the lines of a document, how they are written, and what each tells;
* `Toml.statements_line`: a line is read as what it tells, and by induction (`ofToml_lines`) a text as what its lines
  tell.
-/

namespace ServerTrial.Toml

/-! ### Texts -/

theorem isHex_digitChar : ∀ n < 16, isHex n.digitChar = true ∧ hexDigit n.digitChar = n := by decide

theorem hexChar?_hexChars {c : Char} (small : c.toNat < 0xD800) : hexChar? (Json.hexChars c.toNat) = some c := by
  obtain ⟨a, ha⟩ := isHex_digitChar (c.toNat / 4096 % 16) (by omega)
  obtain ⟨b, hb⟩ := isHex_digitChar (c.toNat / 256 % 16) (by omega)
  obtain ⟨d, hd⟩ := isHex_digitChar (c.toNat / 16 % 16) (by omega)
  obtain ⟨e, he⟩ := isHex_digitChar (c.toNat % 16) (by omega)
  have value : 16 * (16 * (16 * (16 * 0 + c.toNat / 4096 % 16) + c.toNat / 256 % 16) + c.toNat / 16 % 16) +
      c.toNat % 16 = c.toNat := by omega
  unfold hexChar? Json.hexChars
  rw [if_pos (by simp [a, b, d, e])]
  simp only [List.foldl_cons, List.foldl_nil, ha, hb, hd, he, value]
  rw [if_pos (.inl small), Char.ofNat_toNat]

/-- The characters that are escaped by a letter, with their letters. -/
def escapeLetters : List (Char × Char) :=
  [('"', '"'), ('\\', '\\'), ('\x08', 'b'), ('\n', 'n'), ('\x0c', 'f'), ('\r', 'r')]

/-- A character in double quotes is written by its letter, by its number or as it is. -/
theorem escapeChar_cases (c : Char) :
    (∃ d, (c, d) ∈ escapeLetters ∧ (escapeChar c).toList = ['\\', d]) ∨
      (c.toNat < 0xD800 ∧ (escapeChar c).toList = '\\' :: 'u' :: Json.hexChars c.toNat) ∨
      (c ∉ escapeLetters.map Prod.fst ∧ isControl c = false ∧ (escapeChar c).toList = [c]) := by
  by_cases quote : c = '"'
  · subst quote
    exact .inl ⟨'"', by decide, rfl⟩
  by_cases slash : c = '\\'
  · subst slash
    exact .inl ⟨'\\', by decide, rfl⟩
  by_cases erase : c = '\x08'
  · subst erase
    exact .inl ⟨'b', by decide, rfl⟩
  by_cases feed : c = '\n'
  · subst feed
    exact .inl ⟨'n', by decide, rfl⟩
  by_cases page : c = '\x0c'
  · subst page
    exact .inl ⟨'f', by decide, rfl⟩
  by_cases back : c = '\r'
  · subst back
    exact .inl ⟨'r', by decide, rfl⟩
  rw [escapeChar, if_neg quote, if_neg slash, if_neg erase, if_neg feed, if_neg page, if_neg back]
  refine .inr ?_
  split
  · next control =>
    have small : c.toNat < 0xD800 := by
      simp only [isControl, Bool.or_eq_true, Bool.and_eq_true, decide_eq_true_eq, beq_iff_eq] at control
      omega
    rw [String.toList_append, Json.toList_hex (by omega)]
    exact .inl ⟨small, rfl⟩
  · next plain =>
    exact .inr ⟨by simp [escapeLetters, *], Bool.eq_false_iff.2 plain, String.toList_singleton c⟩

/-- A character is read back from its form in double quotes. -/
theorem basic_escapeChar (c : Char) (rest : List Char) :
    basic ((escapeChar c).toList ++ rest) = push c (basic rest) := by
  rcases escapeChar_cases c with ⟨d, letter, text⟩ | ⟨small, text⟩ | ⟨other, plain, text⟩
  · have all : ∀ p ∈ escapeLetters, basic ('\\' :: p.2 :: rest) = push p.1 (basic rest) := by
      simp only [escapeLetters, List.forall_mem_cons]
      exact ⟨rfl, rfl, rfl, rfl, rfl, rfl, List.forall_mem_nil _⟩
    rw [text]
    exact all _ letter
  · rw [text]
    change basic ('\\' :: 'u' :: _ :: _ :: _ :: _ :: rest) = _
    have read := hexChar?_hexChars small
    rw [Json.hexChars] at read
    rw [basic, read]
  · simp only [escapeLetters, List.map_cons, List.map_nil, List.mem_cons, not_or] at other
    rw [text, List.singleton_append, basic]
    · rw [if_neg (by simp [plain, other])]
    all_goals simp_all

theorem basic_escapes (cs rest : List Char) :
    basic ((String.join (cs.map escapeChar)).toList ++ '"' :: rest) = some (cs, rest) := by
  induction cs with
  | nil => rfl
  | cons c cs ih =>
    rw [List.map_cons, String.join_cons, String.toList_append, List.append_assoc, basic_escapeChar, ih]
    rfl

/-- No character in quotes looks like the closing one. -/
theorem escapeChar_cons (c : Char) : ∃ q cs, (escapeChar c).toList = q :: cs ∧ q ≠ '"' := by
  rcases escapeChar_cases c with ⟨d, -, text⟩ | ⟨-, text⟩ | ⟨other, -, text⟩
  · exact ⟨'\\', _, text, by decide⟩
  · exact ⟨'\\', _, text, by decide⟩
  · exact ⟨c, _, text, fun quote => other (quote ▸ List.mem_cons_self)⟩

theorem toList_stringText (s : String) :
    (stringText s).toList = '"' :: (String.join (s.toList.map escapeChar)).toList ++ ['"'] := by
  rw [stringText, String.toList_append, String.toList_append]
  rfl

/-- **Every text is read back** in front of anything but another quote. -/
theorem string_stringText (s : String) {c : Char} (other : c ≠ '"') (rest : List Char) :
    string ((stringText s).toList ++ c :: rest) = some (s.toList, c :: rest) := by
  have read := basic_escapes s.toList (c :: rest)
  rw [toList_stringText, List.cons_append, List.cons_append, List.append_assoc, List.singleton_append]
  cases chars : s.toList with
  | nil =>
    rw [chars] at read
    change string ('"' :: '"' :: c :: rest) = _
    rw [string]
    · exact read
    · intro rest' same
      exact other (List.cons.inj (List.cons.inj same).2).1
  | cons d ds =>
    rw [chars] at read
    obtain ⟨q, cs, first, differs⟩ := escapeChar_cons d
    rw [List.map_cons, String.join_cons, String.toList_append, List.append_assoc, first, List.cons_append] at read ⊢
    rw [string]
    · exact read
    · intro rest' same
      exact differs (List.cons.inj same).1

/-! ### Keys -/

/-- A key that is written without quotes. -/
def Bare (k : String) : Prop := k.toList ≠ [] ∧ ∀ c ∈ k.toList, isBareKey c = true

-- The quantifier over characters would be decided by going through all there are.
instance (k : String) : Decidable (Bare k) :=
  decidable_of_iff (k.toList ≠ [] ∧ k.toList.all isBareKey = true) (and_congr_right fun _ => List.all_eq_true)

theorem keyText_bare {k : String} (bare : Bare k) : keyText k = k := by
  have some : k.isEmpty = false := by
    rw [← Bool.not_eq_true, String.isEmpty_iff]
    rintro rfl
    exact bare.1 String.toList_empty
  rw [keyText, some, List.all_eq_true.2 bare.2]
  rfl

theorem keyPart_bare {k : String} (bare : Bare k) {c : Char} (stop : isBareKey c = false) (rest : List Char) :
    keyPart (k.toList ++ c :: rest) = some (k, c :: rest) := by
  have word : (k.toList ++ c :: rest).span isBareKey = (k.toList, c :: rest) := by
    rw [List.span_eq_takeWhile_dropWhile, List.takeWhile_append_of_pos bare.2, List.dropWhile_append_of_pos bare.2,
      List.takeWhile_cons_of_neg (by rw [stop]; exact Bool.false_ne_true),
      List.dropWhile_cons_of_neg (by rw [stop]; exact Bool.false_ne_true), List.append_nil]
  obtain ⟨a, as, first⟩ := List.exists_cons_of_ne_nil bare.1
  have letter : isBareKey a = true := bare.2 a (first ▸ List.mem_cons_self)
  rw [first, List.cons_append] at word ⊢
  rw [keyPart]
  · rw [word]
    change some (String.ofList (a :: as), c :: rest) = _
    rw [← first, String.ofList_toList]
  · rintro _ ⟨⟩
    cases letter
  · rintro _ ⟨⟩
    cases letter

/-- The parts of a key with dots between them. -/
def dotted (ks : List String) : List Char := (".".intercalate ks).toList

theorem dotted_cons_cons (k k' : String) (ks : List String) :
    dotted (k :: k' :: ks) = k.toList ++ '.' :: dotted (k' :: ks) := by
  rw [dotted, String.intercalate_cons_cons, String.toList_append, String.toList_append, List.append_assoc]
  rfl

theorem skipSpace_of_not {c : Char} (ink : isSpace c = false) (rest : List Char) : skipSpace (c :: rest) = c :: rest :=
  List.dropWhile_cons_of_neg (by rw [ink]; exact Bool.false_ne_true)

theorem isSpace_of_bare {c : Char} (letter : isBareKey c = true) : isSpace c = false := by
  rw [← Bool.not_eq_true]
  intro space
  simp only [isSpace, Bool.or_eq_true, beq_iff_eq] at space
  rcases space with rfl | rfl <;> cases letter

theorem dotted_cons {ks : List String} (bare : ∀ k ∈ ks, Bare k) (nonempty : ks ≠ []) :
    ∃ c cs, dotted ks = c :: cs ∧ isBareKey c = true := by
  obtain ⟨k, rest, rfl⟩ := List.exists_cons_of_ne_nil nonempty
  have own := bare k List.mem_cons_self
  obtain ⟨c, cs, first⟩ := List.exists_cons_of_ne_nil own.1
  have letter : isBareKey c = true := own.2 c (first ▸ List.mem_cons_self)
  cases rest with
  | nil =>
    refine ⟨c, cs, ?_, letter⟩
    rw [dotted, String.intercalate_singleton, first]
  | cons k' rest =>
    refine ⟨c, cs ++ '.' :: dotted (k' :: rest), ?_, letter⟩
    rw [dotted_cons_cons, first, List.cons_append]

theorem keyParts_dot {k : String} {cs rest : List Char} (part : keyPart cs = some (k, '.' :: rest)) (fuel : ℕ) :
    keyParts (fuel + 1) cs = (keyParts fuel (skipSpace rest)).map fun r => (k :: r.1, r.2) := by
  rw [keyParts, part]
  dsimp only
  rw [skipSpace_of_not (by decide)]
  split
  · next same =>
    rw [← (List.cons.inj same).2]
    cases keyParts fuel (skipSpace rest) with
    | none => rfl
    | some r => rfl
  · next other => exact absurd rfl (other rest)

/-- The parts are read up to what is no part of a key. -/
theorem keyParts_dotted {ks : List String} (bare : ∀ k ∈ ks, Bare k) (nonempty : ks ≠ []) {c : Char} {rest : List Char}
    (stop : isBareKey c = false) (dot : ∀ more, skipSpace (c :: rest) ≠ '.' :: more) {fuel : ℕ}
    (enough : ks.length ≤ fuel) : keyParts fuel (dotted ks ++ c :: rest) = some (ks, skipSpace (c :: rest)) := by
  induction ks generalizing fuel with
  | nil => exact absurd rfl nonempty
  | cons k ks ih =>
    obtain ⟨own, others⟩ := List.forall_mem_cons.1 bare
    obtain ⟨fuel, rfl⟩ := Nat.exists_eq_add_of_le' (Nat.one_le_of_lt (Nat.lt_of_lt_of_le (Nat.succ_pos _) enough))
    cases ks with
    | nil =>
      rw [dotted, String.intercalate_singleton, keyParts, keyPart_bare own stop]
      dsimp only
      split
      · next more same => exact absurd same (dot more)
      · rfl
    | cons k' ks =>
      have later := ih others (List.cons_ne_nil _ _) (Nat.le_of_succ_le_succ enough)
      obtain ⟨d, ds, first, letter⟩ := dotted_cons others (List.cons_ne_nil _ _)
      rw [first, List.cons_append] at later
      rw [dotted_cons_cons, first, List.append_assoc, List.cons_append, List.cons_append,
        keyParts_dot (keyPart_bare own rfl _), skipSpace_of_not (isSpace_of_bare letter), later, Option.map_some]

theorem length_le_dotted (ks : List String) : ks.length ≤ (dotted ks).length + 1 := by
  induction ks with
  | nil => exact Nat.zero_le _
  | cons k ks ih =>
    cases ks with
    | nil => exact Nat.succ_le_succ (Nat.zero_le _)
    | cons k' ks =>
      rw [dotted_cons_cons, List.length_append, List.length_cons, List.length_cons (a := '.')]
      omega

/-- A key is read up to what is no part of it. -/
theorem key_dotted {ks : List String} (bare : ∀ k ∈ ks, Bare k) (nonempty : ks ≠ []) {c : Char} {rest : List Char}
    (stop : isBareKey c = false) (dot : ∀ more, skipSpace (c :: rest) ≠ '.' :: more) :
    key (dotted ks ++ c :: rest) = some (ks, skipSpace (c :: rest)) := by
  refine keyParts_dotted bare nonempty stop dot ?_
  have length := length_le_dotted ks
  rw [List.length_append, List.length_cons]
  omega

/-! ### Values -/

/-- A text from which a value is read, up to the end of the line. -/
structure Spells (text : String) (x : Data) : Prop where
  read : ∀ fuel rest, value (fuel + 1) 0 (text.toList ++ '\n' :: rest) = .ok (x, '\n' :: rest)
  start : ∃ c cs, text.toList = c :: cs ∧ isSpace c = false
  unix : '\r' ∉ text.toList

/-- A value that is written in a line and read back from it. -/
def ReadBack (x : Data) : Prop := ∃ text, valueText 0 x = some text ∧ Spells text x

theorem value_scalar {c : Char} (bracket : c ≠ '[') (brace : c ≠ '{') (fuel depth : ℕ) (rest : List Char) :
    value (fuel + 1) depth (c :: rest) = scalar (c :: rest) := by
  rw [value]
  · rintro _ ⟨⟩
    exact bracket rfl
  · rintro _ ⟨⟩
    exact brace rfl

theorem return_not_mem_escapeChar (c : Char) : '\r' ∉ (escapeChar c).toList := by
  rcases escapeChar_cases c with ⟨d, letter, text⟩ | ⟨-, text⟩ | ⟨other, -, text⟩
  · have all : ∀ p ∈ escapeLetters, '\r' ∉ ['\\', p.2] := by decide
    rw [text]
    exact all _ letter
  · have digit : ∀ n < 16, '\r' ≠ n.digitChar := by decide
    rw [text]
    simp only [Json.hexChars, List.mem_cons, List.not_mem_nil, or_false, not_or]
    exact ⟨by decide, by decide, digit _ (by omega), digit _ (by omega), digit _ (by omega), digit _ (by omega)⟩
  · rw [text, List.mem_singleton]
    rintro rfl
    exact other (by decide)

theorem readBack_str (s : String) : ReadBack (.str s) := by
  refine ⟨stringText s, rfl, ?_, ?_, ?_⟩
  · intro fuel rest
    have read := string_stringText s (c := '\n') (by decide) rest
    rw [toList_stringText, List.cons_append, List.cons_append] at read ⊢
    rw [value_scalar (by decide) (by decide)]
    change Parse.ofRead ((string _).map fun r => (Data.str (String.ofList r.1), r.2)) = _
    rw [read, Option.map_some, String.ofList_toList]
    rfl
  · rw [toList_stringText]
    exact ⟨'"', _, rfl, by decide⟩
  · rw [toList_stringText, String.toList_join]
    simp only [List.mem_append, List.mem_cons, List.mem_flatMap, List.mem_map, not_or, List.not_mem_nil]
    refine ⟨⟨by decide, ?_⟩, by decide, id⟩
    rintro ⟨_, ⟨c, -, rfl⟩, mem⟩
    exact return_not_mem_escapeChar c mem

theorem readBack_false : ReadBack (.bool false) := by
  refine ⟨"false", rfl, fun fuel rest => ?_, ⟨_, _, rfl, by decide⟩, by decide⟩
  exact value_scalar (by decide) (by decide) fuel 0 _

theorem readBack_nil : ReadBack (.arr []) := by
  refine ⟨"[]", rfl, fun fuel rest => ?_, ⟨_, _, rfl, by decide⟩, by decide⟩
  change value (fuel + 1) 0 ('[' :: ']' :: '\n' :: rest) = _
  rw [value]
  rfl

/-! Numbers -/

theorem digitsOf_eq_none {count : ℕ} {cs : List Char} {c : Char} (mem : c ∈ cs.take count)
    (other : Text.isDigit c = false) : digitsOf count cs = none := by
  rw [digitsOf]
  refine if_neg fun h => ?_
  rw [List.all_eq_true.1 h.2 c mem] at other
  cases other

theorem digitRun_stop {isDigit : Char → Bool} {c : Char} (stop : isDigit c = false) (rest : List Char) :
    digitRun isDigit (c :: rest) = ([], c :: rest) := by
  unfold digitRun
  split
  all_goals simp_all

theorem digitRun_cons {isDigit : Char → Bool} {c d : Char} (digit : isDigit c = true) (mark : c ≠ '_') (next : d ≠ '_')
    (rest : List Char) :
    digitRun isDigit (c :: d :: rest) = (c :: (digitRun isDigit (d :: rest)).1, (digitRun isDigit (d :: rest)).2) := by
  rw [digitRun]
  · rw [if_pos digit]
  · rintro ⟨⟩
  · rintro ⟨⟩
    exact mark rfl
  · rintro _ _ ⟨⟩
    exact next rfl

/-- Neither a date nor a time is read where a line is too short, and no colon stands in it. -/
theorem moment_eq_none {cs : List Char} {c : Char} (early : c ∈ cs.take 4) (other : Text.isDigit c = false)
    (colon : (twoDigits 0 23 cs).bind (fun r => Toml.expect ':' r.2) = none) : moment cs = none := by
  have days : day cs = none := by
    rw [day, digitsOf_eq_none early other]
    rfl
  have clocks : clock cs = none := by
    unfold clock
    cases hour : twoDigits 0 23 cs with
    | none => rfl
    | some r =>
      rw [hour, Option.bind_some] at colon
      change ((Toml.expect ':' r.2).bind _) = none
      rw [colon]
      rfl
  rw [moment, days, clocks]

/-- A number is read from a text that starts with a digit, names no base and is neither a date nor a time. -/
theorem value_number {c d : Char} {cs : List Char} {x : Data} {rest : List Char} (digit : Text.isDigit c = true)
    (base : Text.isLetter d = false) (timeless : moment (c :: d :: cs) = none)
    (read : decimal (c :: d :: cs) = .ok (x, rest)) (fuel depth : ℕ) :
    value (fuel + 1) depth (c :: d :: cs) = .ok (x, rest) := by
  have other (b : Char) (stop : Text.isDigit b = false) : c ≠ b := by
    rintro rfl
    rw [digit] at stop
    cases stop
  have letter (b : Char) (named : Text.isLetter b = true) : d ≠ b := by
    rintro rfl
    rw [base] at named
    cases named
  have decimally : number (c :: d :: cs) = .ok (x, rest) := by
    unfold number
    split
    · next same => exact absurd (List.cons.inj (List.cons.inj same).2).1 (letter _ rfl)
    · next same => exact absurd (List.cons.inj (List.cons.inj same).2).1 (letter _ rfl)
    · next same => exact absurd (List.cons.inj (List.cons.inj same).2).1 (letter _ rfl)
    · dsimp only
      rw [read]
  rw [value_scalar (other _ rfl) (other _ rfl), scalar, timeless]
  · exact decimally
  · rintro _ ⟨⟩
    exact other _ rfl rfl
  · rintro _ ⟨⟩
    exact other _ rfl rfl
  · rintro _ ⟨⟩
    exact other _ rfl rfl
  · rintro _ ⟨⟩
    exact other _ rfl rfl

/-- Whole digits in the end of their line are a whole number. -/
theorem decimal_whole {c : Char} {cs whole rest : List Char} (digit : Text.isDigit c = true)
    (read : wholeDigits (c :: cs) = some (whole, '\n' :: rest)) (short : whole.length ≤ digitLimit) :
    decimal (c :: cs) = .ok (.int (Scalar.value whole), '\n' :: rest) := by
  have positive : Scalar.sign (c :: cs) = (false, c :: cs) := by
    rw [Scalar.sign]
    all_goals
      rintro _ ⟨⟩
      cases digit
  rw [decimal, positive]
  dsimp only
  rw [read]
  change (if whole.length > digitLimit then _ else Except.ok (Data.int (Scalar.value (whole ++ [])), '\n' :: rest)) = _
  rw [if_neg (Nat.not_lt.2 short), List.append_nil]

theorem readBack_zero : ReadBack (.int 0) := by
  refine ⟨"0", rfl, fun fuel rest => ?_, ⟨_, _, rfl, by decide⟩, by decide⟩
  have hour : twoDigits 0 23 ('0' :: '\n' :: rest) = none := by
    rw [twoDigits, digitsOf_eq_none (c := '\n') (.tail _ (.head _)) rfl]
  have whole : wholeDigits ('0' :: '\n' :: rest) = some (['0'], '\n' :: rest) := rfl
  change value (fuel + 1) 0 ('0' :: '\n' :: rest) = _
  refine value_number rfl rfl (moment_eq_none (c := '\n') (.tail _ (.head _)) rfl ?_) ?_ fuel 0
  · rw [hour, Option.bind_none]
  · exact decimal_whole rfl whole (by decide)

theorem readBack_twelve : ReadBack (.int 12) := by
  refine ⟨"12", rfl, fun fuel rest => ?_, ⟨_, _, rfl, by decide⟩, by decide⟩
  have run : digitRun Text.isDigit ('1' :: '2' :: '\n' :: rest) = (['1', '2'], '\n' :: rest) := by
    rw [digitRun_cons rfl (by decide) (by decide), digitRun_cons rfl (by decide) (by decide), digitRun_stop rfl]
  have whole : wholeDigits ('1' :: '2' :: '\n' :: rest) = some (['1', '2'], '\n' :: rest) := by
    rw [wholeDigits, run]
    · rfl
    · rintro _ ⟨⟩
  have two : digitsOf 2 ('1' :: '2' :: '\n' :: rest) = some (12, '\n' :: rest) := by
    have digits : ['1', '2'].length = 2 ∧ ['1', '2'].all Text.isDigit = true := ⟨rfl, rfl⟩
    rw [digitsOf]
    exact if_pos digits
  have hour : twoDigits 0 23 ('1' :: '2' :: '\n' :: rest) = some (12, '\n' :: rest) := by
    rw [twoDigits, two]
    rfl
  change value (fuel + 1) 0 ('1' :: '2' :: '\n' :: rest) = _
  refine value_number rfl rfl (moment_eq_none (c := '\n') (.tail _ (.tail _ (.head _))) rfl ?_) ?_ fuel 0
  · rw [hour]
    rfl
  · exact decimal_whole rfl whole (by decide)

/-- A digit with a point and a zero behind it is a float. -/
theorem readBack_tenths {d : Char} {x : Float} (digit : Text.isDigit d = true)
    (written : Real64.text .plain x = String.ofList [d, '.', '0'])
    (exact : Binary.ofDecimal false (Scalar.value [d, '0']) (-1) = x) : ReadBack (.float x) := by
  have mark : d ≠ '_' := by
    rintro rfl
    cases digit
  have positive (rest : List Char) : Scalar.sign (d :: rest) = (false, d :: rest) := by
    rw [Scalar.sign]
    all_goals
      rintro _ ⟨⟩
      cases digit
  have whole (rest : List Char) : wholeDigits (d :: '.' :: rest) = some ([d], '.' :: rest) := by
    by_cases zero : d = '0'
    · subst zero
      rfl
    · rw [wholeDigits, digitRun_cons digit mark (by decide), digitRun_stop rfl]
      · rfl
      · rintro _ ⟨⟩
        exact zero rfl
  have part (rest : List Char) : fraction ('.' :: '0' :: '\n' :: rest) = some (['0'], '\n' :: rest) := by
    rw [fraction, digitRun_cons rfl (by decide) (by decide), digitRun_stop rfl]
    rfl
  refine ⟨String.ofList [d, '.', '0'], congrArg some written, fun fuel rest => ?_, ⟨d, ['.', '0'], ?_, ?_⟩, ?_⟩
  · rw [String.toList_ofList]
    change value (fuel + 1) 0 (d :: '.' :: '0' :: '\n' :: rest) = _
    have hour : twoDigits 0 23 (d :: '.' :: '0' :: '\n' :: rest) = none := by
      rw [twoDigits, digitsOf_eq_none (c := '.') (.tail _ (.head _)) rfl]
    refine value_number digit rfl (moment_eq_none (c := '.') (.tail _ (.head _)) rfl ?_) ?_ fuel 0
    · rw [hour, Option.bind_none]
    · rw [decimal, positive]
      dsimp only
      rw [whole]
      dsimp only
      rw [part]
      change Except.ok (Data.float (Binary.ofDecimal false (Scalar.value [d, '0']) (-1)), '\n' :: rest) = _
      rw [exact]
  · rw [String.toList_ofList]
  · rw [← Bool.not_eq_true]
    intro space
    simp only [isSpace, Bool.or_eq_true, beq_iff_eq] at space
    rcases space with rfl | rfl <;> cases digit
  · rw [String.toList_ofList]
    simp only [List.mem_cons, List.not_mem_nil, or_false, not_or]
    refine ⟨?_, by decide, by decide⟩
    rintro rfl
    cases digit

theorem readBack_float_zero : ReadBack (.float 0) := by
  have written : Real64.text .plain 0 = "0.0" := by decide +kernel
  have exact : Binary.ofDecimal false 0 (-1) = 0 := by decide +kernel
  exact readBack_tenths (d := '0') rfl written exact

theorem readBack_float_one : ReadBack (.float 1) := by
  have written : Real64.text .plain 1 = "1.0" := by decide +kernel
  have exact : Binary.ofDecimal false 10 (-1) = 1 := by decide +kernel
  exact readBack_tenths (d := '1') rfl written exact

/-! ### Lines -/

/-- A line of a document. -/
inductive Line where
  | blank
  | header (name : List String)
  | entry (k : String) (x : Data)

namespace Line

/-- The characters of a line with the line feed at its end. -/
def chars : Line → List Char
  | blank => ['\n']
  | header name => '[' :: dotted name ++ [']', '\n']
  | entry k x => k.toList ++ ' ' :: '=' :: ' ' :: ((valueText 0 x).getD "").toList ++ ['\n']

/-- What a line does to the draft of a document. -/
def step (d : Draft) : Line → Option Draft
  | blank => some d
  | header name => d.openTable name
  | entry k x => d.add [k] x

/-- Is a line read as what it says? -/
def Sound : Line → Prop
  | blank => True
  | header name => name ≠ [] ∧ ∀ k ∈ name, Bare k
  | entry k x => Bare k ∧ ReadBack x

end Line

theorem statement_header {name : List String} (nonempty : name ≠ []) (bare : ∀ k ∈ name, Bare k) (d : Draft)
    (rest : List Char) :
    statement d ('[' :: dotted name ++ ']' :: '\n' :: rest) = Draft.before ('\n' :: rest) (d.openTable name) := by
  obtain ⟨c, cs, first, letter⟩ := dotted_cons bare nonempty
  have read : key (dotted name ++ ']' :: '\n' :: rest) = some (name, ']' :: '\n' :: rest) :=
    key_dotted bare nonempty rfl (by rintro _ ⟨⟩)
  rw [first, List.cons_append] at read
  rw [first, List.cons_append, List.cons_append, statement]
  · rw [skipSpace_of_not (isSpace_of_bare letter), read]
    rfl
  · rintro _ ⟨⟩
    cases letter

theorem statement_entry {k text : String} {x : Data} (bare : Bare k) (spells : Spells text x) (d : Draft)
    (rest : List Char) :
    statement d (k.toList ++ ' ' :: '=' :: ' ' :: (text.toList ++ '\n' :: rest)) =
      Draft.before ('\n' :: rest) (d.add [k] x) := by
  obtain ⟨c, cs, first⟩ := List.exists_cons_of_ne_nil bare.1
  have letter : isBareKey c = true := bare.2 c (first ▸ List.mem_cons_self)
  obtain ⟨t, ts, ink, solid⟩ := spells.start
  have other (b : Char) (mark : isBareKey b = false) : c ≠ b := by
    rintro rfl
    rw [letter] at mark
    cases mark
  have behind : skipSpace (' ' :: (text.toList ++ '\n' :: rest)) = text.toList ++ '\n' :: rest := by
    rw [ink, List.cons_append]
    exact skipSpace_of_not solid _
  have named : key (k.toList ++ ' ' :: '=' :: ' ' :: (text.toList ++ '\n' :: rest)) =
      some ([k], '=' :: ' ' :: (text.toList ++ '\n' :: rest)) := by
    have read : key (dotted [k] ++ ' ' :: '=' :: ' ' :: (text.toList ++ '\n' :: rest)) =
        some ([k], '=' :: ' ' :: (text.toList ++ '\n' :: rest)) :=
      key_dotted (List.forall_mem_singleton.2 bare) (List.cons_ne_nil _ _) rfl (by rintro _ ⟨⟩)
    rwa [dotted, String.intercalate_singleton] at read
  have found (fuel : ℕ) : entry (fuel + 2) 0 (k.toList ++ ' ' :: '=' :: ' ' :: (text.toList ++ '\n' :: rest)) =
      .ok (([k], x), '\n' :: rest) := by
    rw [entry, named]
    change (value (fuel + 1) 0 (skipSpace (' ' :: (text.toList ++ '\n' :: rest))) >>= fun r =>
      Except.ok (([k], r.1), r.2)) = _
    rw [behind, spells.read fuel rest]
    rfl
  rw [first, List.cons_append] at found
  rw [first, List.cons_append, statement]
  · rw [found]
    rfl
  · intro _ same
    exact other _ rfl (List.cons.inj same).1
  · intro _ same
    exact other _ rfl (List.cons.inj same).1
  · intro _ same
    exact other _ rfl (List.cons.inj same).1

/-- A statement with the end of its line behind it. -/
theorem statements_of_statement {c : Char} {cs rest : List Char} (ink : isSpace c = false) (some : c ≠ '\n')
    {d d' : Draft} (read : statement d (c :: cs) = .ok (d', '\n' :: rest)) (fuel : ℕ) :
    statements (fuel + 1) d (c :: cs) = statements fuel d' rest := by
  rw [statements, skipSpace_of_not ink]
  split
  · next same => cases same
  · next same => exact absurd (List.cons.inj same).1 some
  · rw [read]
    rfl

/-- **A line is read** as what it tells. -/
theorem statements_line {line : Line} (sound : line.Sound) {d d' : Draft} (told : line.step d = some d') (fuel : ℕ)
    (rest : List Char) : statements (fuel + 1) d (line.chars ++ rest) = statements fuel d' rest := by
  cases line with
  | blank =>
    cases told
    rfl
  | header name =>
    have read := statement_header sound.1 sound.2 d rest
    rw [show d.openTable name = some d' from told] at read
    rw [Line.chars, List.append_assoc]
    exact statements_of_statement rfl (by decide) read fuel
  | entry k x =>
    obtain ⟨bare, text, written, spells⟩ := sound
    have read := statement_entry bare spells d rest
    rw [show d.add [k] x = some d' from told] at read
    obtain ⟨c, cs, first⟩ := List.exists_cons_of_ne_nil bare.1
    have letter : isBareKey c = true := bare.2 c (first ▸ List.mem_cons_self)
    have ink : c ≠ '\n' := by
      rintro rfl
      cases letter
    rw [first] at read
    rw [Line.chars, written, Option.getD_some, List.append_assoc, first]
    simp only [List.cons_append, List.append_assoc, List.nil_append]
    exact statements_of_statement (isSpace_of_bare letter) ink read fuel

/-- **A document is read** as what its lines tell. -/
theorem statements_lines {lines : List Line} (sound : ∀ line ∈ lines, line.Sound) {d d' : Draft}
    (told : lines.foldlM Line.step d = some d') {fuel : ℕ} (enough : lines.length < fuel) :
    statements fuel d (lines.flatMap Line.chars) = .ok d' := by
  induction lines generalizing d fuel with
  | nil =>
    obtain ⟨fuel, rfl⟩ := Nat.exists_eq_add_of_lt enough
    cases told
    rfl
  | cons line lines ih =>
    obtain ⟨own, others⟩ := List.forall_mem_cons.1 sound
    obtain ⟨d₁, first, later⟩ := Option.bind_eq_some_iff.1 told
    rw [List.length_cons] at enough
    obtain ⟨fuel, rfl⟩ := Nat.exists_eq_add_of_le' (Nat.one_le_of_lt enough)
    rw [List.flatMap_cons, statements_line own first]
    exact ih others later (Nat.lt_of_succ_lt_succ enough)

theorem length_le_chars (lines : List Line) : lines.length ≤ (lines.flatMap Line.chars).length := by
  induction lines with
  | nil => exact Nat.le_refl 0
  | cons line lines ih =>
    have some : 1 ≤ line.chars.length := by
      cases line with
      | blank => exact Nat.le_refl 1
      | header name => exact Nat.succ_le_succ (Nat.zero_le _)
      | entry k x =>
        rw [Line.chars, List.length_append]
        exact Nat.le_add_left _ _
    rw [List.flatMap_cons, List.length_append, List.length_cons]
    omega

theorem unixLines_of_not_mem {cs : List Char} (unix : '\r' ∉ cs) : unixLines cs = cs := by
  induction cs with
  | nil => rfl
  | cons c cs ih =>
    rw [List.mem_cons, not_or] at unix
    rw [unixLines, ih unix.2]
    intro _ same _
    exact unix.1 same.symm

theorem return_not_mem_of_bare {k : String} (bare : Bare k) : '\r' ∉ k.toList := by
  intro mem
  cases bare.2 _ mem

theorem return_not_mem_dotted {ks : List String} (bare : ∀ k ∈ ks, Bare k) : '\r' ∉ dotted ks := by
  induction ks with
  | nil => exact List.not_mem_nil
  | cons k ks ih =>
    obtain ⟨own, others⟩ := List.forall_mem_cons.1 bare
    cases ks with
    | nil =>
      rw [dotted, String.intercalate_singleton]
      exact return_not_mem_of_bare own
    | cons k' ks =>
      rw [dotted_cons_cons, List.mem_append, List.mem_cons, not_or, not_or]
      exact ⟨return_not_mem_of_bare own, by decide, ih others⟩

theorem Line.Sound.unix {line : Line} (sound : line.Sound) : '\r' ∉ line.chars := by
  cases line with
  | blank => decide
  | header name =>
    rw [Line.chars, List.cons_append, List.mem_cons, List.mem_append, not_or, not_or]
    exact ⟨by decide, return_not_mem_dotted sound.2, by decide⟩
  | entry k x =>
    obtain ⟨bare, text, written, spells⟩ := sound
    rw [Line.chars, written, Option.getD_some]
    simp [return_not_mem_of_bare bare, spells.unix]

/-- **A text is read** as what its lines tell. -/
theorem ofToml_lines {text : String} {lines : List Line} (chars : text.toList = lines.flatMap Line.chars)
    (sound : ∀ line ∈ lines, line.Sound) {d : Draft} (told : lines.foldlM Line.step Draft.empty = some d) :
    Data.ofToml text = .ok d.entries := by
  have unix : unixLines text.toList = lines.flatMap Line.chars := by
    rw [chars]
    refine unixLines_of_not_mem fun mem => ?_
    obtain ⟨line, among, mem⟩ := List.mem_flatMap.1 mem
    exact (sound line among).unix mem
  rw [Data.ofToml, unix, statements_lines sound told (Nat.lt_succ_of_le (length_le_chars lines))]
  rfl

end ServerTrial.Toml
