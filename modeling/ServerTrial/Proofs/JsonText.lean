import ServerTrial.Proofs.Readable
import ServerTrial.Proofs.StringText

/-!
# JSON texts read back

* `Json.toJson_begins`: the text of a value begins with no blank and no closing bracket;
* `Json.readsBack`: the text of data is read as the data, whatever stands behind it;
* `Data.ofJson_toJson`: **a document that is written reads back**.
-/

namespace ServerTrial

namespace Json

/-- A value may begin with the character, as far as its neighbours are concerned. -/
def Begins (c : Char) : Prop := isSpace c = false ∧ c ≠ ']' ∧ c ≠ '}' ∧ c ≠ Char.ofNat 0xFEFF

theorem skip_of_begins {c : Char} (h : isSpace c = false) (rest : List Char) : skip (c :: rest) = c :: rest := by
  rw [skip, List.dropWhile_cons_of_neg (by rw [h]; exact Bool.false_ne_true)]

theorem skip_space (rest : List Char) : skip (' ' :: rest) = skip rest := rfl

/-- The characters that words and numbers begin with. -/
theorem scalar_error {c : Char} (letter : c ∉ ['n', 't', 'f', 'N', 'I', '-']) (digit : isDigit c = false)
    (rest : List Char) : scalar (c :: rest) = fail .value (c :: rest) := by
  have other : ∀ x ∈ ['n', 't', 'f', 'N', 'I', '-'], x ≠ c := by
    rintro x hx rfl
    exact letter hx
  have number : number? (c :: rest) = none := by
    have dash : c ≠ '-' := (other '-' (by decide)).symm
    have whole : wholeDigits (c :: rest) = none := by
      unfold wholeDigits
      split
      · next zero =>
        rw [(List.cons.inj zero).1] at digit
        cases digit
      · next same =>
        rw [← (List.cons.inj same).1, digit, if_neg Bool.false_ne_true]
      · next none => cases none
    unfold number?
    simp only [List.cons.injEq, dash, false_and, imp_false, not_false_eq_true, implies_true, whole]
  unfold scalar
  rw [word?_none (w := "null") rfl (other _ (by decide)), word?_none (w := "true") rfl (other _ (by decide)),
    word?_none (w := "false") rfl (other _ (by decide)), word?_none (w := "NaN") rfl (other _ (by decide)),
    word?_none (w := "Infinity") rfl (other _ (by decide)), word?_none (w := "-Infinity") rfl (other _ (by decide)),
    number]

/-- A text that is read as a scalar begins so that it is read as one. -/
theorem scalar_begins {cs : List Char} {r : Data × List Char} (h : scalar cs = .ok r) :
    ∃ c rest, cs = c :: rest ∧ Begins c ∧ c ≠ '"' ∧ c ≠ '[' ∧ c ≠ '{' := by
  have other : ∀ c rest, cs = c :: rest → c ∉ ['n', 't', 'f', 'N', 'I', '-'] → isDigit c = false → False := by
    rintro c rest rfl letter digit
    rw [scalar_error letter digit] at h
    cases h
  cases cs with
  | nil => cases h
  | cons c rest =>
    have ne : ∀ x, x ∉ ['n', 't', 'f', 'N', 'I', '-'] → isDigit x = false → c ≠ x := by
      rintro x letter digit rfl
      exact other c rest rfl letter digit
    refine ⟨c, rest, rfl, ⟨?_, ne _ (by decide) rfl, ne _ (by decide) rfl, ne _ (by decide) rfl⟩,
      ne _ (by decide) rfl, ne _ (by decide) rfl, ne _ (by decide) rfl⟩
    simp [isSpace, ne ' ' (by decide) rfl, ne '\t' (by decide) rfl, ne '\n' (by decide) rfl, ne '\r' (by decide) rfl]

theorem value_of_scalar {cs : List Char} {r : Data × List Char} (h : scalar cs = .ok r) (fuel depth : Nat) :
    value (fuel + 1) depth cs = .ok r := by
  obtain ⟨c, rest, rfl, -, quote, bracket, brace⟩ := scalar_begins h
  rw [value]
  · exact h
  · simp [quote]
  · simp [bracket]
  · simp [brace]

/-! ### Texts of data -/

/-- The text of the items of an array, and of the entries of an object. -/
def itemsText (xs : List Data) : List Char := (", ".intercalate (Data.toJsonItems xs)).toList

def entriesText (es : List (String × Data)) : List Char := (", ".intercalate (Data.toJsonEntries es)).toList

theorem toJson_arr (xs : List Data) : (Data.arr xs).toJson.toList = '[' :: (itemsText xs ++ [']']) := by
  rw [Data.toJson, String.toList_append, String.toList_append]
  rfl

theorem toJson_obj (es : List (String × Data)) : (Data.obj es).toJson.toList = '{' :: (entriesText es ++ ['}']) := by
  rw [Data.toJson, String.toList_append, String.toList_append]
  rfl

theorem itemsText_cons (x y : Data) (xs : List Data) :
    itemsText (x :: y :: xs) = x.toJson.toList ++ ',' :: ' ' :: itemsText (y :: xs) := by
  simp only [itemsText, Data.toJsonItems, String.intercalate_cons_cons, String.toList_append]
  rw [List.append_assoc]
  rfl

theorem itemsText_singleton (x : Data) : itemsText [x] = x.toJson.toList := by
  simp only [itemsText, Data.toJsonItems, String.intercalate_singleton]

/-- The text of an entry. -/
def entryText (k : String) (x : Data) : List Char := (string k).toList ++ ':' :: ' ' :: x.toJson.toList

theorem entriesText_cons (k : String) (x : Data) (e : String × Data) (es : List (String × Data)) :
    entriesText ((k, x) :: e :: es) = entryText k x ++ ',' :: ' ' :: entriesText (e :: es) := by
  obtain ⟨l, y⟩ := e
  simp only [entriesText, Data.toJsonEntries, String.intercalate_cons_cons, String.toList_append, entryText]
  simp

theorem entriesText_singleton (k : String) (x : Data) : entriesText [(k, x)] = entryText k x := by
  simp only [entriesText, Data.toJsonEntries, String.intercalate_singleton, String.toList_append, entryText]
  simp

theorem string_toList (s : String) :
    (string s).toList = '"' :: ((String.join ((Text.points s).map escapePoint)).toList ++ ['"']) := by
  rw [string, String.toList_append, String.toList_append]
  rfl

theorem closes_nil : Closes [] := by
  rintro c ⟨⟩

theorem closes_cons {c : Char} (rest : List Char) (h : c = ',' ∨ c = ']' ∨ c = '}') : Closes (c :: rest) := by
  rintro d ⟨⟩
  exact h

/-- Words and numbers read back. -/
theorem scalar_toJson {d : Data} (regular : d.Regular) (readable : d.Readable) {rest : List Char} (stop : Closes rest)
    (plain : d.brackets = 0) (noText : ∀ s, d ≠ .str s) : scalar (d.toJson.toList ++ rest) = .ok (d, rest) := by
  cases d with
  | null => rfl
  | bool b => cases b <;> rfl
  | int n => exact scalar_int readable stop
  | float x => exact scalar_float regular stop
  | str s => exact absurd rfl (noText s)
  | moment m => exact absurd readable id
  | arr xs => cases plain
  | obj es => cases plain

/-- The text of a value begins with no blank and no closing bracket. -/
theorem toJson_begins {d : Data} (regular : d.Regular) (readable : d.Readable) :
    ∃ c cs, d.toJson.toList = c :: cs ∧ Begins c := by
  have word : d.brackets = 0 → (∀ s, d ≠ .str s) → ∃ c cs, d.toJson.toList = c :: cs ∧ Begins c := by
    intro plain noText
    have read := scalar_toJson regular readable closes_nil plain noText
    rw [List.append_nil] at read
    obtain ⟨c, cs, text, begins, -⟩ := scalar_begins read
    exact ⟨c, cs, text, begins⟩
  cases d with
  | str s => exact ⟨_, _, string_toList s, by decide, by decide, by decide, by decide⟩
  | arr xs => exact ⟨_, _, toJson_arr xs, by decide, by decide, by decide, by decide⟩
  | obj es => exact ⟨_, _, toJson_obj es, by decide, by decide, by decide, by decide⟩
  | _ => exact word rfl (by simp)

/-- A bracket that is not closed at once leads to the items. -/
theorem value_arr {fuel depth : Nat} {c : Char} {cs rest : List Char} {xs : List Data} (begins : Begins c)
    (deep : depth < nestingLimit) (h : items fuel (depth + 1) (c :: cs) = .ok (xs, rest)) :
    value (fuel + 1) depth ('[' :: c :: cs) = .ok (.arr xs, rest) := by
  rw [value, if_neg (Nat.not_le.2 deep), skip_of_begins begins.1]
  split
  · next same => exact absurd (List.cons.inj same).1 begins.2.1
  · rw [h]

theorem value_obj {fuel depth : Nat} {cs rest : List Char} {es : List (String × Data)} (deep : depth < nestingLimit)
    (h : members fuel (depth + 1) ('"' :: cs) = .ok (es, rest)) :
    value (fuel + 1) depth ('{' :: '"' :: cs) = .ok (.obj (Data.collect es), rest) := by
  rw [value, if_neg (Nat.not_le.2 deep), skip_of_begins rfl]
  split
  · next same => exact absurd (List.cons.inj same).1 (by decide)
  · rw [h]

theorem items_last {fuel depth : Nat} {cs rest : List Char} {x : Data}
    (h : value fuel depth cs = .ok (x, ']' :: rest)) : items (fuel + 1) depth cs = .ok ([x], rest) := by
  rw [items, h]
  rfl

theorem items_next {fuel depth : Nat} {c : Char} {cs mid rest : List Char} {x : Data} {xs : List Data}
    (h : value fuel depth cs = .ok (x, ',' :: ' ' :: c :: mid)) (begins : Begins c)
    (others : items fuel depth (c :: mid) = .ok (xs, rest)) : items (fuel + 1) depth cs = .ok (x :: xs, rest) := by
  rw [items, h]
  simp only [skip_of_begins (c := ',') rfl, skip_space, skip_of_begins begins.1, others]

section Members

variable {k : String} {fuel depth : Nat} {c : Char} {cs rest : List Char} {x : Data}

theorem members_last (whole : Text.isWhole k = true) (begins : Begins c)
    (h : value fuel depth (c :: cs) = .ok (x, '}' :: rest)) :
    members (fuel + 1) depth ((string k).toList ++ ':' :: ' ' :: c :: cs) = .ok ([(k, x)], rest) := by
  rw [string_toList, List.cons_append, List.append_assoc, List.singleton_append, members]
  obtain ⟨points, read, text⟩ := stringBody_string whole _ (':' :: ' ' :: c :: cs)
  rw [read]
  simp only [skip_of_begins (c := ':') rfl, skip_space, skip_of_begins begins.1, h, text]
  rfl

theorem members_next (whole : Text.isWhole k = true) (begins : Begins c) {mid : List Char}
    (h : value fuel depth (c :: cs) = .ok (x, ',' :: ' ' :: '"' :: mid)) {es : List (String × Data)}
    (others : members fuel depth ('"' :: mid) = .ok (es, rest)) :
    members (fuel + 1) depth ((string k).toList ++ ':' :: ' ' :: c :: cs) = .ok ((k, x) :: es, rest) := by
  rw [string_toList, List.cons_append, List.append_assoc, List.singleton_append, members]
  obtain ⟨points, read, text⟩ := stringBody_string whole _ (':' :: ' ' :: c :: cs)
  rw [read]
  simp only [skip_of_begins (c := ':') rfl, skip_of_begins (c := ',') rfl, skip_of_begins (c := '"') rfl, skip_space,
    skip_of_begins begins.1, h, text, others]

end Members

theorem itemsText_begins {x : Data} (xs : List Data) (regular : x.Regular) (readable : x.Readable) :
    ∃ c cs, itemsText (x :: xs) = c :: cs ∧ Begins c := by
  obtain ⟨c, cs, text, begins⟩ := toJson_begins regular readable
  cases xs with
  | nil => exact ⟨c, cs, by rw [itemsText_singleton, text], begins⟩
  | cons y xs => exact ⟨c, _, by rw [itemsText_cons, text, List.cons_append], begins⟩

theorem entriesText_begins (e : String × Data) (es : List (String × Data)) :
    ∃ cs, entriesText (e :: es) = '"' :: cs := by
  obtain ⟨k, x⟩ := e
  cases es with
  | nil => exact ⟨_, by rw [entriesText_singleton, entryText, string_toList, List.cons_append]⟩
  | cons f es => exact ⟨_, by rw [entriesText_cons, entryText, string_toList, List.cons_append, List.cons_append]⟩

theorem toJson_length_pos {d : Data} (regular : d.Regular) (readable : d.Readable) : 0 < d.toJson.toList.length := by
  obtain ⟨c, cs, text, -⟩ := toJson_begins regular readable
  rw [text]
  exact Nat.succ_pos _

/-! ### Data -/

/-- The text of the data is read as the data, whatever closes behind it.  Each character pays for two units of
fuel. -/
def ReadsBack (d : Data) : Prop :=
  ∀ (fuel depth : Nat) (rest : List Char), Closes rest → depth + d.brackets ≤ nestingLimit →
    2 * d.toJson.toList.length ≤ fuel → value fuel depth (d.toJson.toList ++ rest) = .ok (d, rest)

def ItemsReadBack (xs : List Data) : Prop :=
  ∀ (fuel depth : Nat) (rest : List Char), depth + Data.bracketsOfItems xs ≤ nestingLimit →
    2 * (itemsText xs).length < fuel → items fuel depth (itemsText xs ++ ']' :: rest) = .ok (xs, rest)

def EntriesReadBack (es : List (String × Data)) : Prop :=
  ∀ (fuel depth : Nat) (rest : List Char), depth + Data.bracketsOfEntries es ≤ nestingLimit →
    2 * (entriesText es).length < fuel → members fuel depth (entriesText es ++ '}' :: rest) = .ok (es, rest)

theorem readsBack_scalar {d : Data} (regular : d.Regular) (readable : d.Readable) (plain : d.brackets = 0)
    (noText : ∀ s, d ≠ .str s) : ReadsBack d := by
  intro fuel depth rest stop _ enough
  have pos := toJson_length_pos regular readable
  obtain ⟨fuel, rfl⟩ := Nat.exists_eq_succ_of_ne_zero (by omega : fuel ≠ 0)
  exact value_of_scalar (scalar_toJson regular readable stop plain noText) fuel depth

theorem readsBack_str {s : String} (whole : Text.isWhole s = true) : ReadsBack (.str s) := by
  intro fuel depth rest _ _ enough
  rw [Data.toJson, string_toList] at enough ⊢
  rw [List.length_cons] at enough
  obtain ⟨fuel, rfl⟩ := Nat.exists_eq_succ_of_ne_zero (by omega : fuel ≠ 0)
  rw [List.cons_append, List.append_assoc, List.singleton_append, value]
  obtain ⟨points, read, text⟩ := stringBody_string whole _ rest
  rw [read, ← text]

theorem readsBack_arr {xs : List Data} (regular : ∀ x ∈ xs, x.Regular) (readable : ∀ x ∈ xs, x.Readable)
    (h : xs ≠ [] → ItemsReadBack xs) : ReadsBack (.arr xs) := by
  intro fuel depth rest _ deep enough
  rw [toJson_arr] at enough ⊢
  rw [List.length_cons, List.length_append] at enough
  rw [Data.brackets] at deep
  obtain ⟨fuel, rfl⟩ := Nat.exists_eq_succ_of_ne_zero (by omega : fuel ≠ 0)
  rw [List.cons_append, List.append_assoc, List.singleton_append]
  cases xs with
  | nil =>
    have inside : ¬ nestingLimit ≤ depth := by omega
    rw [value, if_neg inside]
    rfl
  | cons x xs =>
    have read := h (by simp) fuel (depth + 1) rest (by omega) (by omega)
    obtain ⟨c, cs, text, begins⟩ := itemsText_begins xs (regular x List.mem_cons_self) (readable x List.mem_cons_self)
    rw [text, List.cons_append] at read ⊢
    exact value_arr begins (by omega) read

theorem readsBack_obj {es : List (String × Data)} (distinct : (es.map Prod.fst).Nodup)
    (h : es ≠ [] → EntriesReadBack es) : ReadsBack (.obj es) := by
  intro fuel depth rest _ deep enough
  rw [toJson_obj] at enough ⊢
  rw [List.length_cons, List.length_append] at enough
  rw [Data.brackets] at deep
  obtain ⟨fuel, rfl⟩ := Nat.exists_eq_succ_of_ne_zero (by omega : fuel ≠ 0)
  rw [List.cons_append, List.append_assoc, List.singleton_append]
  cases es with
  | nil =>
    have inside : ¬ nestingLimit ≤ depth := by omega
    rw [value, if_neg inside]
    rfl
  | cons e es =>
    have read := h (by simp) fuel (depth + 1) rest (by omega) (by omega)
    obtain ⟨cs, text⟩ := entriesText_begins e es
    rw [text, List.cons_append] at read ⊢
    rw [value_obj (by omega) read, Data.collect_of_nodup distinct]

theorem itemsReadBack_singleton {x : Data} (h : ReadsBack x) : ItemsReadBack [x] := by
  intro fuel depth rest deep enough
  rw [itemsText_singleton] at enough ⊢
  rw [Data.bracketsOfItems, Data.bracketsOfItems] at deep
  obtain ⟨fuel, rfl⟩ := Nat.exists_eq_succ_of_ne_zero (by omega : fuel ≠ 0)
  exact items_last (h fuel depth _ (closes_cons rest (by decide)) (by omega) (by omega))

theorem itemsReadBack_cons {x y : Data} {xs : List Data} (regular : y.Regular) (readable : y.Readable)
    (h : ReadsBack x) (hs : ItemsReadBack (y :: xs)) : ItemsReadBack (x :: y :: xs) := by
  intro fuel depth rest deep enough
  rw [itemsText_cons] at enough ⊢
  rw [List.length_append, List.length_cons, List.length_cons] at enough
  rw [Data.bracketsOfItems] at deep
  obtain ⟨fuel, rfl⟩ := Nat.exists_eq_succ_of_ne_zero (by omega : fuel ≠ 0)
  have first := h fuel depth (',' :: ' ' :: (itemsText (y :: xs) ++ ']' :: rest)) (closes_cons _ (by decide))
    (by omega) (by omega)
  have others := hs fuel depth rest (by omega) (by omega)
  obtain ⟨c, cs, text, begins⟩ := itemsText_begins xs regular readable
  rw [List.append_assoc, List.cons_append, List.cons_append]
  rw [text, List.cons_append] at first others ⊢
  exact items_next first begins others

theorem entriesReadBack_singleton {k : String} {x : Data} (whole : Text.isWhole k = true) (regular : x.Regular)
    (readable : x.Readable) (h : ReadsBack x) : EntriesReadBack [(k, x)] := by
  intro fuel depth rest deep enough
  rw [entriesText_singleton, entryText] at enough ⊢
  rw [List.length_append, List.length_cons, List.length_cons] at enough
  rw [Data.bracketsOfEntries, Data.bracketsOfEntries] at deep
  obtain ⟨fuel, rfl⟩ := Nat.exists_eq_succ_of_ne_zero (by omega : fuel ≠ 0)
  have read := h fuel depth ('}' :: rest) (closes_cons _ (by decide)) (by omega) (by omega)
  obtain ⟨c, cs, text, begins⟩ := toJson_begins regular readable
  rw [List.append_assoc, List.cons_append, List.cons_append]
  rw [text, List.cons_append] at read ⊢
  exact members_last whole begins read

theorem entriesReadBack_cons {k : String} {x : Data} {e : String × Data} {es : List (String × Data)}
    (whole : Text.isWhole k = true) (regular : x.Regular) (readable : x.Readable) (h : ReadsBack x)
    (hs : EntriesReadBack (e :: es)) : EntriesReadBack ((k, x) :: e :: es) := by
  intro fuel depth rest deep enough
  rw [entriesText_cons, entryText] at enough ⊢
  rw [List.length_append, List.length_append, List.length_cons, List.length_cons, List.length_cons,
    List.length_cons] at enough
  rw [Data.bracketsOfEntries] at deep
  obtain ⟨fuel, rfl⟩ := Nat.exists_eq_succ_of_ne_zero (by omega : fuel ≠ 0)
  have first := h fuel depth (',' :: ' ' :: (entriesText (e :: es) ++ '}' :: rest)) (closes_cons _ (by decide))
    (by omega) (by omega)
  have others := hs fuel depth rest (by omega) (by omega)
  obtain ⟨c, cs, text, begins⟩ := toJson_begins regular readable
  obtain ⟨mid, key⟩ := entriesText_begins e es
  simp only [List.append_assoc, List.cons_append]
  rw [text, List.cons_append] at first ⊢
  rw [key, List.cons_append] at first others ⊢
  exact members_next whole begins first others

mutual

/-- **The text of data is read as the data.** -/
theorem readsBack : ∀ d : Data, d.Regular → d.Readable → ReadsBack d
  | .arr xs, regular, readable =>
    readsBack_arr (Data.allItems_iff.1 regular.2) (Data.allItems_iff.1 readable.2)
      (itemsReadBack xs regular.2 readable.2)
  | .obj es, regular, readable =>
    readsBack_obj readable.1 (entriesReadBack es regular.1 regular.2 readable.2)
  | .str _, regular, _ => readsBack_str regular
  | .null, regular, readable => readsBack_scalar regular readable rfl (by simp)
  | .bool _, regular, readable => readsBack_scalar regular readable rfl (by simp)
  | .int _, regular, readable => readsBack_scalar regular readable rfl (by simp)
  | .float _, regular, readable => readsBack_scalar regular readable rfl (by simp)
  | .moment _, _, readable => absurd readable id

theorem itemsReadBack : ∀ xs : List Data, Data.AllItems Data.IsRegular xs → Data.AllItems Data.IsReadable xs →
    xs ≠ [] → ItemsReadBack xs
  | [], _, _, some' => absurd rfl some'
  | [x], regular, readable, _ => itemsReadBack_singleton (readsBack x regular.1 readable.1)
  | x :: y :: xs, regular, readable, _ =>
    itemsReadBack_cons regular.2.1 readable.2.1 (readsBack x regular.1 readable.1)
      (itemsReadBack (y :: xs) regular.2 readable.2 (by simp))

theorem entriesReadBack : ∀ es : List (String × Data), (∀ e ∈ es, Text.isWhole e.1 = true) →
    Data.AllEntries Data.IsRegular es → Data.AllEntries Data.IsReadable es → es ≠ [] → EntriesReadBack es
  | [], _, _, _, some' => absurd rfl some'
  | [(k, x)], whole, regular, readable, _ =>
    entriesReadBack_singleton (whole (k, x) List.mem_cons_self) regular.1 readable.1
      (readsBack x regular.1 readable.1)
  | (k, x) :: e :: es, whole, regular, readable, _ =>
    entriesReadBack_cons (whole (k, x) List.mem_cons_self) regular.1 readable.1 (readsBack x regular.1 readable.1)
      (entriesReadBack (e :: es) (fun f hf => whole f (List.mem_cons_of_mem (k, x) hf)) regular.2 readable.2 (by simp))

end

end Json

/-- **The JSON text of data reads back.** -/
theorem Data.ofJson_toJson {d : Data} (regular : d.Regular) (readable : d.Readable)
    (deep : d.brackets ≤ nestingLimit) : Data.ofJson d.toJson = .ok d := by
  obtain ⟨c, cs, text, begins⟩ := Json.toJson_begins regular readable
  have read := Json.readsBack d regular readable (2 * d.toJson.toList.length + 2) 0 [] Json.closes_nil
    (by omega) (by omega)
  rw [List.append_nil] at read
  unfold Data.ofJson Json.document
  rw [if_neg]
  · have start : Json.skip d.toJson.toList = d.toJson.toList := by rw [text, Json.skip_of_begins begins.1]
    rw [start, read]
    rfl
  · rw [text]
    simpa using begins.2.2.2

end ServerTrial
