import ServerTrial.Data.JsonWriter
import ServerTrial.Data.JsonReader
import ServerTrial.Proofs.ShortestDecimal

/-!
# Number texts read back

* `Json.number?_whole`, `Json.number?_float`: numbers are read part by part;
* `Json.reads_layOut`: a decimal is read as it is laid out, whichever layout it has;
* `Json.scalar_int`, `Json.scalar_float`: integers and finite floats read back.
-/

namespace ServerTrial.Json

/-! ### Digits -/

/-- What may stand behind a value: nothing, a comma, or a closing bracket or brace. -/
def Closes (rest : List Char) : Prop := ∀ c ∈ rest.head?, c = ',' ∨ c = ']' ∨ c = '}'

/-- The text does not start with a digit. -/
def NoDigit (rest : List Char) : Prop := ∀ c ∈ rest.head?, isDigit c = false

theorem natural_eq (ds : List Char) : natural ds = Nat.ofDigitChars 10 ds 0 := rfl

theorem Closes.noDigit {rest : List Char} (h : Closes rest) : NoDigit rest := by
  intro c hc
  rcases h c hc with rfl | rfl | rfl <;> rfl

theorem noDigit_cons {c : Char} (rest : List Char) (h : isDigit c = false) : NoDigit (c :: rest) := by
  rintro d ⟨⟩
  exact h

/-- A run of digits ends where no digit follows. -/
theorem span_digits {ds rest : List Char} (digits : ∀ c ∈ ds, isDigit c = true) (stop : NoDigit rest) :
    (ds ++ rest).span isDigit = (ds, rest) := by
  rw [List.span_eq_takeWhile_dropWhile, List.takeWhile_append_of_pos digits, List.dropWhile_append_of_pos digits]
  cases rest with
  | nil => simp
  | cons c rest =>
    have := stop c rfl
    simp [this]

theorem digits_toDigits (n : ℕ) : ∀ c ∈ Nat.toDigits 10 n, isDigit c = true := fun _ hc =>
  Nat.isDigit_of_mem_toDigits (by decide) (by decide) hc

/-- A positive natural does not start with a zero. -/
theorem head_toDigits {n : ℕ} (pos : 0 < n) : ∃ c cs, Nat.toDigits 10 n = c :: cs ∧ c ≠ '0' := by
  induction n using Nat.strongRecOn with
  | ind n ih =>
    by_cases small : n < 10
    · rw [Nat.toDigits_of_lt_base small]
      refine ⟨_, _, rfl, fun zero => ?_⟩
      have value := Nat.toNat_digitChar_sub_48_of_lt_ten small
      rw [zero] at value
      exact absurd value (by simpa using pos.ne)
    · obtain ⟨c, cs, same, nonzero⟩ := ih (n / 10) (by omega) (by omega)
      rw [Nat.toDigits_of_base_le (by decide) (by omega), same]
      exact ⟨c, cs ++ [_], rfl, nonzero⟩

/-! ### The parts of a number -/

/-- Digits that may start a number: a lone zero, or digits with another one in front. -/
structure Whole (ds : List Char) : Prop where
  digits : ∀ c ∈ ds, isDigit c = true
  start : ds = ['0'] ∨ ∃ c cs, ds = c :: cs ∧ c ≠ '0'

theorem Whole.read {ds : List Char} (h : Whole ds) {rest : List Char} (stop : NoDigit rest) :
    wholeDigits (ds ++ rest) = some (ds, rest) := by
  rcases h.start with rfl | ⟨c, cs, rfl, nonzero⟩
  · rfl
  · have run := span_digits h.digits stop
    rw [List.cons_append] at run ⊢
    unfold wholeDigits
    split
    · next zero => exact absurd (List.cons.inj zero).1 nonzero
    · next d ds _ same =>
      obtain ⟨rfl, rfl⟩ := List.cons.inj same
      rw [if_pos (h.digits c List.mem_cons_self), run]
    · next none => cases none

theorem Whole.plain {ds : List Char} (h : Whole ds) : ∃ c cs, ds = c :: cs ∧ c ≠ '-' := by
  rcases h.start with rfl | ⟨c, cs, rfl, -⟩
  · exact ⟨_, _, rfl, by decide⟩
  · exact ⟨c, cs, rfl, fun dash => absurd (h.digits c List.mem_cons_self) (by rw [dash]; decide)⟩

theorem whole_toDigits (n : ℕ) : Whole (Nat.toDigits 10 n) := by
  refine ⟨digits_toDigits n, ?_⟩
  rcases Nat.eq_zero_or_pos n with rfl | pos
  · exact .inl rfl
  · exact .inr (head_toDigits pos)

theorem fraction_read {ds rest : List Char} (digits : ∀ c ∈ ds, isDigit c = true) (some' : ds ≠ [])
    (stop : NoDigit rest) : fraction ('.' :: (ds ++ rest)) = some (ds, rest) := by
  cases ds with
  | nil => exact absurd rfl some'
  | cons c cs =>
    have run := span_digits digits stop
    rw [List.cons_append] at run ⊢
    rw [fraction, if_pos (digits c List.mem_cons_self), run]

theorem fraction_none {rest : List Char} (stop : rest.head? ≠ some '.') : fraction rest = none := by
  unfold fraction
  split
  · exact absurd rfl stop
  · rfl

theorem exponent_none {rest : List Char} (stop : ∀ c ∈ rest.head?, c ≠ 'e' ∧ c ≠ 'E') : exponent rest = none := by
  cases rest with
  | nil => rfl
  | cons c rest =>
    obtain ⟨small, capital⟩ := stop c rfl
    unfold exponent
    dsimp only
    rw [if_neg]
    rintro (same | same)
    · exact small same
    · exact capital same


theorem natural_toDigits (n : ℕ) : natural (Nat.toDigits 10 n) = n := Nat.ofDigitChars_ten_toDigits

/-- An exponent is read as it is written. -/
theorem exponent_read (e : ℤ) {rest : List Char} (stop : NoDigit rest) :
    exponent ((Real64.exponentText e).toList ++ rest) = some (e, rest) := by
  obtain ⟨ds, text, digits, some', value⟩ : ∃ ds : List Char,
      (Real64.exponentText e).toList = 'e' :: (if e < 0 then '-' else '+') :: ds ∧
        (∀ c ∈ ds, isDigit c = true) ∧ ds ≠ [] ∧ natural ds = e.natAbs := by
    have digits := digits_toDigits e.natAbs
    have value := natural_toDigits e.natAbs
    by_cases short : (Nat.repr e.natAbs).length < 2
    · refine ⟨'0' :: Nat.toDigits 10 e.natAbs, ?_, ?_, by simp, ?_⟩
      · unfold Real64.exponentText
        dsimp only
        rw [Nat.toString_eq_repr, if_pos short]
        split <;> simp
      · simpa using ⟨rfl, digits⟩
      · exact value
    · refine ⟨Nat.toDigits 10 e.natAbs, ?_, digits, by simp, value⟩
      unfold Real64.exponentText
      dsimp only
      rw [Nat.toString_eq_repr, if_neg short]
      split <;> simp
  have run := span_digits digits stop
  have nonempty : ¬ ds.isEmpty = true := by simpa using some'
  rw [text, List.cons_append, List.cons_append]
  unfold exponent
  by_cases negative : e < 0
  · simp only [if_pos negative, true_or, if_true, run, if_neg nonempty, value]
    congr
    omega
  · simp only [if_neg negative, true_or, if_true, run, if_neg nonempty, value, Bool.false_eq_true, if_false]
    congr
    omega


/-! ### Numbers -/

/-- The characters of a sign. -/
def signChars (negative : Bool) : List Char := if negative then ['-'] else []

/-- An integer. -/
theorem number?_whole {ds rest : List Char} (whole : Whole ds) (short : ds.length ≤ digitLimit) (stop : Closes rest)
    (negative : Bool) :
    number? (signChars negative ++ (ds ++ rest)) =
      some (.ok (.int (if negative then -(natural ds : ℤ) else natural ds), rest)) := by
  have read := whole.read stop.noDigit
  have noFraction : fraction rest = none := fraction_none fun dot => by
    rcases stop '.' dot with h | h | h <;> cases h
  have noExponent : exponent rest = none := exponent_none fun c hc => by
    rcases stop c hc with rfl | rfl | rfl <;> decide
  have long : ¬ ds.length > digitLimit := Nat.not_lt.2 short
  obtain ⟨c, cs, rfl, plain⟩ := whole.plain
  unfold number?
  cases negative with
  | true =>
    simp only [signChars, if_true, List.cons_append, List.nil_append] at read ⊢
    simp only [read, noFraction, noExponent, if_neg long, List.append_nil, Bool.false_eq_true, if_false]
  | false =>
    simp only [signChars, Bool.false_eq_true, if_false, List.cons_append, List.nil_append] at read ⊢
    simp only [List.cons.injEq, plain, false_and, imp_false, not_false_eq_true, implies_true, read, noFraction,
      noExponent, if_neg long, List.append_nil, Bool.false_eq_true, if_false]

/-- What stands behind the whole digits of a float: the digits behind the point, and the power of ten. -/
inductive Fraction : List Char → List Char → ℤ → List Char → Prop
  | point {mid part rest} : fraction mid = some (part, rest) → exponent rest = none → Fraction mid part 0 rest
  | both {mid part tail e rest} : fraction mid = some (part, tail) → exponent tail = some (e, rest) →
      Fraction mid part e rest
  | power {mid e rest} : fraction mid = none → exponent mid = some (e, rest) → Fraction mid [] e rest

/-- A number with a fraction or an exponent. -/
theorem number?_float {ds mid part rest : List Char} {power : ℤ} (whole : Whole ds) (stop : NoDigit mid)
    (tail : Fraction mid part power rest) (negative : Bool) :
    number? (signChars negative ++ (ds ++ mid)) =
      some (.ok (.float (Binary.ofDecimal negative (natural (ds ++ part)) (power - part.length)), rest)) := by
  have read := whole.read stop
  obtain ⟨c, cs, rfl, plain⟩ := whole.plain
  unfold number?
  cases negative with
  | true =>
    simp only [signChars, if_true, List.cons_append, List.nil_append] at read ⊢
    cases tail with
    | point dot noPower => simp only [read, dot, noPower, if_true, List.cons_append]
    | both dot power => simp only [read, dot, power, if_true, List.cons_append]
    | power noDot power => simp only [read, noDot, power, if_true, List.cons_append]
  | false =>
    simp only [signChars, Bool.false_eq_true, if_false, List.cons_append, List.nil_append] at read ⊢
    simp only [List.cons.injEq, plain, false_and, imp_false, not_false_eq_true, implies_true, read]
    cases tail with
    | point dot noPower => simp only [dot, noPower, if_true, List.cons_append]
    | both dot power => simp only [dot, power, if_true, List.cons_append]
    | power noDot power => simp only [noDot, power, if_true, List.cons_append]


theorem word?_none {w : String} {x c : Char} {xs rest : List Char} (letters : w.toList = x :: xs) (other : x ≠ c) :
    word? w.toList (c :: rest) = none := by
  rw [letters, word?, if_neg]
  simp [List.isPrefixOf, other]

/-- A number is no word. -/
theorem scalar_number {negative : Bool} {c : Char} {rest : List Char} (digit : isDigit c = true) {r : Read Data}
    (h : number? (signChars negative ++ c :: rest) = some r) : scalar (signChars negative ++ c :: rest) = r := by
  have other : ∀ x, isDigit x = false → x ≠ c := by
    rintro x letter rfl
    rw [digit] at letter
    cases letter
  unfold scalar
  cases negative with
  | true =>
    have infinity : word? "-Infinity".toList ('-' :: c :: rest) = none := by
      have letters : "-Infinity".toList = '-' :: 'I' :: "nfinity".toList := rfl
      rw [letters, word?, if_neg]
      simp [List.isPrefixOf, other 'I' rfl]
    simp only [signChars, if_true, List.cons_append, List.nil_append] at h ⊢
    rw [word?_none (w := "null") rfl (by decide), word?_none (w := "true") rfl (by decide),
      word?_none (w := "false") rfl (by decide), word?_none (w := "NaN") rfl (by decide),
      word?_none (w := "Infinity") rfl (by decide), infinity, h]
  | false =>
    simp only [signChars, Bool.false_eq_true, if_false, List.nil_append] at h ⊢
    rw [word?_none (w := "null") rfl (other _ rfl), word?_none (w := "true") rfl (other _ rfl),
      word?_none (w := "false") rfl (other _ rfl), word?_none (w := "NaN") rfl (other _ rfl),
      word?_none (w := "Infinity") rfl (other _ rfl), word?_none (w := "-Infinity") rfl (other _ rfl), h]

theorem Whole.scalar {ds mid : List Char} (h : Whole ds) {negative : Bool} {r : Read Data}
    (read : number? (signChars negative ++ (ds ++ mid)) = some r) : scalar (signChars negative ++ (ds ++ mid)) = r := by
  obtain ⟨c, cs, rfl, -⟩ := h.plain
  exact scalar_number (h.digits c List.mem_cons_self) read

/-- A number with a fraction or an exponent is read as a float. -/
theorem scalar_fraction {ds mid part rest : List Char} {power : ℤ} (whole : Whole ds) (stop : NoDigit mid)
    (tail : Fraction mid part power rest) (negative : Bool) :
    scalar (signChars negative ++ (ds ++ mid)) =
      .ok (.float (Binary.ofDecimal negative (natural (ds ++ part)) (power - part.length)), rest) :=
  whole.scalar (number?_float whole stop tail negative)

/-! ### Laid out decimals -/

/-- The text is read as a float from a decimal with the value `x`. -/
def ReadsAs (text : List Char) (negative : Bool) (x : ℚ) : Prop :=
  ∀ rest, Closes rest → ∃ (n : ℕ) (g : ℤ), n ≤ 10 ^ 18 ∧ (n : ℚ) * 10 ^ g = x ∧
    scalar (signChars negative ++ (text ++ rest)) = .ok (.float (Binary.ofDecimal negative n g), rest)

theorem Closes.noExponent {rest : List Char} (h : Closes rest) : exponent rest = none := exponent_none fun c hc => by
  rcases h c hc with rfl | rfl | rfl <;> decide

theorem natural_zeros (z : ℕ) (ds : List Char) : natural (List.replicate z '0' ++ ds) = natural ds := by
  rw [natural_eq, Nat.ofDigitChars_append, Nat.ofDigitChars_replicate_zero, Nat.mul_zero, natural_eq]

theorem digits_zeros (z : ℕ) : ∀ c ∈ List.replicate z '0', isDigit c = true := by
  intro c hc
  rw [(List.mem_replicate.1 hc).2]
  rfl

section LayOut

variable {d : ℕ} {c : Char} {cs : List Char}

theorem exponentText_head (e : ℤ) : ∃ cs, (Real64.exponentText e).toList = 'e' :: cs := by
  unfold Real64.exponentText
  dsimp only
  split <;> simp

/-- One digit before the point, and an exponent. -/
theorem reads_scientific (small : d ≤ 10 ^ 18) (text : Nat.toDigits 10 d = c :: cs) (nonzero : c ≠ '0') (g : ℤ)
    (negative : Bool) :
    ReadsAs (c :: ((if cs = [] then [] else '.' :: cs) ++ (Real64.exponentText (cs.length + g)).toList)) negative
      (d * 10 ^ g) := by
  intro rest stop
  have digits := digits_toDigits d
  rw [text] at digits
  have whole : Whole [c] := ⟨fun x hx => digits x (by simp_all), .inr ⟨c, [], rfl, nonzero⟩⟩
  have power := exponent_read (cs.length + g) stop.noDigit
  have value : natural ([c] ++ cs) = d := by rw [List.singleton_append, ← text, natural_toDigits]
  obtain ⟨letters, head⟩ := exponentText_head (cs.length + g)
  by_cases none : cs = []
  · subst none
    have start : fraction ((Real64.exponentText (([] : List Char).length + g)).toList ++ rest) = .none := by
      rw [head]
      exact fraction_none (by simp)
    refine ⟨d, g, small, rfl, ?_⟩
    have read := scalar_fraction whole (by rw [head]; exact noDigit_cons _ rfl) (.power start power) negative
    rw [value] at read
    simpa using read
  · have stops : NoDigit ((Real64.exponentText (cs.length + g)).toList ++ rest) := by
      rw [head]
      exact noDigit_cons _ rfl
    have part := fraction_read (fun x hx => digits x (List.mem_cons_of_mem c hx)) none stops
    refine ⟨d, g, small, rfl, ?_⟩
    have read := scalar_fraction whole (noDigit_cons _ rfl) (.both part power) negative
    rw [value, add_sub_cancel_left] at read
    simpa [none] using read

/-- A zero before the point. -/
theorem reads_small (small : d ≤ 10 ^ 18) (z : ℕ) (negative : Bool) :
    ReadsAs ('0' :: '.' :: (List.replicate z '0' ++ Nat.toDigits 10 d)) negative
      (d * 10 ^ (-(z + (Nat.toDigits 10 d).length : ℕ) : ℤ)) := by
  intro rest stop
  have whole : Whole ['0'] := ⟨by simp; rfl, .inl rfl⟩
  have digits : ∀ x ∈ List.replicate z '0' ++ Nat.toDigits 10 d, isDigit x = true := fun x hx =>
    (List.mem_append.1 hx).elim (digits_zeros z x) (digits_toDigits d x)
  have part := fraction_read digits (by simp) stop.noDigit
  have value : natural (['0'] ++ (List.replicate z '0' ++ Nat.toDigits 10 d)) = d := by
    rw [← List.append_assoc, ← List.replicate_one, List.replicate_append_replicate, natural_zeros, natural_toDigits]
  refine ⟨d, _, small, rfl, ?_⟩
  have read := scalar_fraction whole (noDigit_cons _ rfl) (.point part stop.noExponent) negative
  rw [value, zero_sub, List.length_append, List.length_replicate] at read
  exact read

/-- Zeros before the point. -/
theorem reads_large (pos : 0 < d) (z : ℕ) (short : (Nat.toDigits 10 d).length + z ≤ 16) (negative : Bool) :
    ReadsAs (Nat.toDigits 10 d ++ List.replicate z '0' ++ ['.', '0']) negative (d * 10 ^ (z : ℤ)) := by
  intro rest stop
  obtain ⟨c, cs, text, nonzero⟩ := head_toDigits pos
  have whole : Whole (Nat.toDigits 10 d ++ List.replicate z '0') :=
    ⟨fun x hx => (List.mem_append.1 hx).elim (digits_toDigits d x) (digits_zeros z x),
      .inr ⟨c, cs ++ List.replicate z '0', by rw [text, List.cons_append], nonzero⟩⟩
  have part : fraction ('.' :: (['0'] ++ rest)) = some (['0'], rest) :=
    fraction_read (by simp; rfl) (by simp) stop.noDigit
  have value : natural (Nat.toDigits 10 d ++ List.replicate z '0' ++ ['0']) = 10 * (10 ^ z * d) := by
    rw [natural_eq, Nat.ofDigitChars_append, Nat.ofDigitChars_append, ← natural_eq, natural_toDigits,
      Nat.ofDigitChars_replicate_zero]
    rfl
  have bound : 10 ^ z * d < 10 ^ 16 := by
    have := (Nat.length_toDigits_le_iff (b := 10) (n := d) (by decide) Nat.length_toDigits_pos).1 (Nat.le_refl _)
    calc 10 ^ z * d < 10 ^ z * 10 ^ (Nat.toDigits 10 d).length :=
          Nat.mul_lt_mul_of_pos_left this (Nat.pow_pos (by decide))
      _ = 10 ^ ((Nat.toDigits 10 d).length + z) := by rw [← Nat.pow_add, Nat.add_comm]
      _ ≤ 10 ^ 16 := Nat.pow_le_pow_right (by decide) short
  refine ⟨10 * (10 ^ z * d), -1, by omega, ?_, ?_⟩
  · push_cast
    rw [zpow_natCast, zpow_neg_one]
    ring
  · have read := scalar_fraction whole (noDigit_cons _ rfl) (.point part stop.noExponent) negative
    rw [value] at read
    simpa using read

/-- The point among the digits. -/
theorem reads_plain (small : d ≤ 10 ^ 18) (pos : 0 < d) {k : ℕ} (some' : 0 < k)
    (inner : k < (Nat.toDigits 10 d).length) (negative : Bool) :
    ReadsAs ((Nat.toDigits 10 d).take k ++ '.' :: (Nat.toDigits 10 d).drop k) negative
      (d * 10 ^ ((k : ℤ) - (Nat.toDigits 10 d).length)) := by
  intro rest stop
  obtain ⟨c, cs, text, nonzero⟩ := head_toDigits pos
  have digits := digits_toDigits d
  have whole : Whole ((Nat.toDigits 10 d).take k) := by
    refine ⟨fun x hx => digits x (List.mem_of_mem_take hx), .inr ⟨c, cs.take (k - 1), ?_, nonzero⟩⟩
    obtain ⟨n, rfl⟩ := Nat.exists_eq_succ_of_ne_zero some'.ne'
    rw [text]
    rfl
  have part := fraction_read (fun x hx => digits x (List.mem_of_mem_drop hx)) (by simpa using inner) stop.noDigit
  have value : natural ((Nat.toDigits 10 d).take k ++ (Nat.toDigits 10 d).drop k) = d := by
    rw [List.take_append_drop, natural_toDigits]
  refine ⟨d, _, small, rfl, ?_⟩
  have read := scalar_fraction whole (noDigit_cons _ rfl) (.point part stop.noExponent) negative
  rw [value, List.length_drop] at read
  have places : (0 : ℤ) - ((Nat.toDigits 10 d).length - k : ℕ) = k - (Nat.toDigits 10 d).length := by omega
  rw [places] at read
  simpa using read

/-- **A decimal is read as it is laid out.** -/
theorem reads_layOut (small : d ≤ 10 ^ 18) (pos : 0 < d) (g : ℤ) (negative : Bool) :
    ReadsAs (Real64.layOut .json (toString d) ((toString d).length + g)).toList negative (d * 10 ^ g) := by
  obtain ⟨c, cs, text, nonzero⟩ := head_toDigits pos
  have chars : (toString d).toList = Nat.toDigits 10 d := Nat.toList_repr
  have length : (toString d).length = (Nat.toDigits 10 d).length := by rw [← chars, String.length_toList]
  unfold Real64.layOut
  dsimp only
  rw [chars, length]
  split
  · have read := reads_scientific small text nonzero g negative
    have point : ((Nat.toDigits 10 d).length : ℤ) + g - 1 = cs.length + g := by rw [text, List.length_cons]; push_cast; ring
    rw [point, text]
    by_cases none : cs = []
    · simpa [none] using read
    · simpa [none] using read
  · split
    · next _ before =>
      have read := reads_small small (-((Nat.toDigits 10 d).length + g)).toNat negative
      have exponent : (-(((-((Nat.toDigits 10 d).length + g : ℤ)).toNat + (Nat.toDigits 10 d).length : ℕ) : ℤ)) = g := by
        omega
      rw [exponent] at read
      simpa [Real64.zeros, chars] using read
    · split
      · next limits _ behind =>
        have most : FloatStyle.json.greatestPoint = 16 := rfl
        have read := reads_large pos ((Nat.toDigits 10 d).length + g - (Nat.toDigits 10 d).length : ℤ).toNat
          (by omega) negative
        have exponent : ((((Nat.toDigits 10 d).length + g - (Nat.toDigits 10 d).length : ℤ).toNat : ℕ) : ℤ) = g := by
          omega
        rw [exponent] at read
        simpa [Real64.zeros, chars] using read
      · next before behind =>
        have read := reads_plain small pos (k := ((Nat.toDigits 10 d).length + g : ℤ).toNat) (by omega) (by omega)
          negative
        have exponent : ((((Nat.toDigits 10 d).length + g : ℤ).toNat : ℕ) : ℤ) - (Nat.toDigits 10 d).length = g := by
          omega
        rw [exponent] at read
        simpa using read

end LayOut

/-! ### Numbers as they are written -/

theorem toList_signed (negative : Bool) (text : String) :
    (Real64.signed negative text).toList = signChars negative ++ text.toList := by
  cases negative <;> simp [Real64.signed, signChars]

theorem toList_toString (n : ℤ) : (toString n).toList = signChars (n < 0) ++ Nat.toDigits 10 n.natAbs := by
  cases n with
  | ofNat m => exact Nat.toList_repr
  | negSucc m =>
    have text : toString (Int.negSucc m) = "-" ++ Nat.repr (m + 1) := rfl
    have sign : decide (Int.negSucc m < 0) = true := decide_eq_true (Int.negSucc_lt_zero m)
    rw [text, sign, String.toList_append, Nat.toList_repr]
    rfl

/-- **Integers read back.** -/
theorem scalar_int {n : ℤ} (bound : n.natAbs < 10 ^ digitLimit) {rest : List Char} (stop : Closes rest) :
    scalar ((toString n).toList ++ rest) = .ok (.int n, rest) := by
  have whole := whole_toDigits n.natAbs
  have short := (Nat.length_toDigits_le_iff (b := 10) (n := n.natAbs) (by decide) (by decide)).2 bound
  have read := number?_whole whole short stop (n < 0)
  have value : (if decide (n < 0) = true then -(n.natAbs : ℤ) else n.natAbs) = n := by
    simp only [decide_eq_true_eq]
    omega
  rw [natural_toDigits, value] at read
  rw [toList_toString, List.append_assoc]
  exact whole.scalar read

/-- **Finite floats read back.** -/
theorem scalar_float {x : Float} (finite : x.isFinite = true) {rest : List Char} (stop : Closes rest) :
    scalar ((Real64.text .json x).toList ++ rest) = .ok (.float x, rest) := by
  obtain ⟨negative, m, e, exact'⟩ := Real64.exact_of_isFinite finite
  obtain ⟨canonical, bits⟩ := Real64.eq_of_exact exact'
  unfold Real64.text
  rw [exact']
  dsimp only
  split
  · next zero =>
    have whole : Whole ['0'] := ⟨by simp; rfl, .inl rfl⟩
    have part : fraction ('.' :: (['0'] ++ rest)) = some (['0'], rest) :=
      fraction_read (by simp; rfl) (by simp) stop.noDigit
    have read := scalar_fraction whole (noDigit_cons _ rfl) (.point part stop.noExponent) negative
    have value : Binary.ofDecimal negative (natural (['0'] ++ ['0'])) (0 - (['0'].length : ℕ)) = x := by
      rw [bits, zero]
      rfl
    rw [value] at read
    rw [toList_signed, List.append_assoc]
    exact read
  · next nonzero =>
    have pos := Nat.pos_of_ne_zero nonzero
    obtain ⟨near, small⟩ := Shortest.ofMantissa_spec canonical pos
    have some' := Nat.pos_of_ne_zero (Shortest.digits_ne_zero canonical pos)
    obtain ⟨n, g, few, value, read⟩ := reads_layOut small some' (Shortest.ofMantissa m e).exponent negative rest stop
    rw [Shortest.Decimal.value, ← value] at near
    rw [Binary.ofDecimal_of_near canonical pos few near, ← bits] at read
    rw [toList_signed, List.append_assoc]
    exact read

end ServerTrial.Json
