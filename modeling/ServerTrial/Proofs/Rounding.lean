import ServerTrial.Proofs.FloatBits

/-!
# Rounding to floats

* `Binary.roundQuotient_of_near`: the natural nearest to a quotient;
* `Binary.exponent_eq`: the logarithms of two naturals and one comparison give the exponent of their quotient;
* `Binary.Near m e x`: the number `x` lies so close to `m * 2 ^ e` that this is the float it rounds to;
* `Binary.nearestBits_of_near`: it does.
-/

namespace ServerTrial

/-! ### Powers with integer exponents -/

/-- A power with an integer exponent as a quotient of powers with natural ones. -/
theorem zpow_eq_div (b : ℚ) (s : ℤ) : b ^ s = b ^ s.toNat / b ^ (-s).toNat := by
  obtain ⟨n, rfl | rfl⟩ := s.eq_nat_or_neg
  · simp
  · simp

/-- A quotient with a power taken off, as a quotient of naturals. -/
theorem scaled_div {b : ℕ} (hb : b ≠ 0) (num den : ℕ) (g : ℤ) :
    ((num * b ^ (-g).toNat : ℕ) : ℚ) / (den * b ^ g.toNat : ℕ) = (num : ℚ) / den / (b : ℚ) ^ g := by
  have hb' : (b : ℚ) ≠ 0 := by exact_mod_cast hb
  rw [zpow_eq_div (b : ℚ) g]
  push_cast
  field_simp

namespace Binary

/-! ### The nearest natural -/

theorem roundQuotient_eq {num den q : ℕ} (pos : 0 < den) (low : 2 * q * den ≤ 2 * num + den)
    (high : 2 * num ≤ 2 * q * den + den)
    (tie : q % 2 = 0 ∨ (2 * q * den < 2 * num + den ∧ 2 * num < 2 * q * den + den)) : roundQuotient num den = q := by
  have parts : den * (num / den) + num % den = num := Nat.div_add_mod num den
  have rest : num % den < den := Nat.mod_lt num pos
  have above : 2 * q < 2 * (num / den) + 3 := by
    refine Nat.lt_of_mul_lt_mul_right (a := den) ?_
    calc 2 * q * den ≤ 2 * num + den := low
      _ < 2 * (den * (num / den)) + 3 * den := by omega
      _ = (2 * (num / den) + 3) * den := by ring
  have below : 2 * (num / den) ≤ 2 * q + 1 := by
    refine Nat.le_of_mul_le_mul_right (c := den) ?_ pos
    calc 2 * (num / den) * den = 2 * (den * (num / den)) := by ring
      _ ≤ 2 * q * den + den := by omega
      _ = (2 * q + 1) * den := by ring
  unfold roundQuotient
  dsimp only
  rcases (by omega : num / den = q ∨ num / den + 1 = q) with same | next
  · have product : 2 * q * den = 2 * (den * (num / den)) := by rw [same]; ring
    rw [if_neg]
    · exact same
    · omega
  · have product : 2 * q * den = 2 * (den * (num / den)) + 2 * den := by rw [← next]; ring
    rw [if_pos]
    · exact next
    · omega

/-- The natural that is nearest to a quotient, the even one of two. -/
theorem roundQuotient_of_near {num den q : ℕ} (pos : 0 < den) (low : (q : ℚ) - 1 / 2 ≤ (num : ℚ) / den)
    (high : (num : ℚ) / den ≤ q + 1 / 2)
    (tie : q % 2 = 0 ∨ ((q : ℚ) - 1 / 2 < (num : ℚ) / den ∧ (num : ℚ) / den < q + 1 / 2)) :
    roundQuotient num den = q := by
  have pos' : (0 : ℚ) < den := by exact_mod_cast pos
  rw [le_div_iff₀ pos'] at low
  rw [div_le_iff₀ pos'] at high
  rw [lt_div_iff₀ pos', div_lt_iff₀ pos'] at tie
  refine roundQuotient_eq pos ?_ ?_ (tie.imp id fun strict => ⟨?_, ?_⟩)
  · have : (2 * q * den : ℚ) ≤ 2 * num + den := by linarith
    exact_mod_cast this
  · have : (2 * num : ℚ) ≤ 2 * q * den + den := by linarith
    exact_mod_cast this
  · have : (2 * q * den : ℚ) < 2 * num + den := by linarith [strict.1]
    exact_mod_cast this
  · have : (2 * num : ℚ) < 2 * q * den + den := by linarith [strict.2]
    exact_mod_cast this

/-! ### The exponent of a quotient -/

section Quotient

variable {num den : ℕ}

theorem pow_log2_le (hn : num ≠ 0) : (2 : ℚ) ^ (num.log2 : ℤ) ≤ num := by
  rw [zpow_natCast]
  exact_mod_cast Nat.log2_self_le hn

theorem lt_pow_log2 (num : ℕ) : (num : ℚ) < 2 ^ (num.log2 + 1 : ℤ) := by
  have : num < 2 ^ (num.log2 + 1) := Nat.lt_log2_self
  have cast : (2 : ℚ) ^ (num.log2 + 1 : ℤ) = (2 ^ (num.log2 + 1) : ℕ) := by push_cast; rfl
  rw [cast]
  exact_mod_cast this

/-- A quotient lies within a factor of two of the power that its logarithms give. -/
theorem div_log2 (hn : num ≠ 0) (hd : den ≠ 0) :
    (2 : ℚ) ^ ((num.log2 : ℤ) - den.log2 - 1) ≤ num / den ∧ (num : ℚ) / den < 2 ^ ((num.log2 : ℤ) - den.log2 + 1) := by
  have pos : (0 : ℚ) < den := by exact_mod_cast Nat.pos_of_ne_zero hd
  constructor
  · rw [le_div_iff₀ pos]
    calc (2 : ℚ) ^ ((num.log2 : ℤ) - den.log2 - 1) * den
        ≤ 2 ^ ((num.log2 : ℤ) - den.log2 - 1) * 2 ^ (den.log2 + 1 : ℤ) :=
          mul_le_mul_of_nonneg_left (lt_pow_log2 den).le (by positivity)
      _ = 2 ^ (num.log2 : ℤ) := by rw [← zpow_add₀ two_ne_zero]; congr 1; ring
      _ ≤ num := pow_log2_le hn
  · rw [div_lt_iff₀ pos]
    calc (num : ℚ) < 2 ^ (num.log2 + 1 : ℤ) := lt_pow_log2 num
      _ = 2 ^ ((num.log2 : ℤ) - den.log2 + 1) * 2 ^ (den.log2 : ℤ) := by
          rw [← zpow_add₀ two_ne_zero]; congr 1; ring
      _ ≤ 2 ^ ((num.log2 : ℤ) - den.log2 + 1) * den :=
          mul_le_mul_of_nonneg_left (pow_log2_le hd) (by positivity)

/-- The test by which the exponent is found. -/
theorem scaled_lt_iff (hd : den ≠ 0) (s : ℤ) :
    num * 2 ^ (-s).toNat < den * 2 ^ s.toNat ↔ (num : ℚ) / den < 2 ^ s := by
  have pos : (0 : ℚ) < (den * 2 ^ s.toNat : ℕ) := by
    exact_mod_cast Nat.mul_pos (Nat.pos_of_ne_zero hd) (Nat.two_pow_pos _)
  have power : (0 : ℚ) < 2 ^ s := by positivity
  have scaled := scaled_div two_ne_zero num den s
  push_cast at scaled pos
  rw [← one_mul ((2 : ℚ) ^ s), ← div_lt_iff₀ power, ← scaled, div_lt_one pos]
  norm_cast

/-- Only one power of two is the greatest one below a number. -/
theorem exponent_unique {x : ℚ} {i j : ℤ} (hi : 2 ^ i ≤ x) (hi' : x < 2 ^ (i + 1)) (hj : 2 ^ j ≤ x)
    (hj' : x < 2 ^ (j + 1)) : i = j := by
  have ij : i < j + 1 := (zpow_lt_zpow_iff_right₀ one_lt_two).1 (hi.trans_lt hj')
  have ji : j < i + 1 := (zpow_lt_zpow_iff_right₀ one_lt_two).1 (hj.trans_lt hi')
  omega

theorem exponent_eq (hn : num ≠ 0) (hd : den ≠ 0) {k : ℤ} (low : 2 ^ k ≤ (num : ℚ) / den)
    (high : (num : ℚ) / den < 2 ^ (k + 1)) :
    (if num * 2 ^ (-((num.log2 : ℤ) - den.log2)).toNat < den * 2 ^ ((num.log2 : ℤ) - den.log2).toNat then
      (num.log2 : ℤ) - den.log2 - 1 else (num.log2 : ℤ) - den.log2) = k := by
  obtain ⟨least, most⟩ := div_log2 hn hd
  split
  · next below =>
    refine exponent_unique least ?_ low high
    rw [sub_add_cancel]
    exact (scaled_lt_iff hd _).1 below
  · next above =>
    refine exponent_unique ?_ most low high
    exact not_lt.1 fun below => above ((scaled_lt_iff hd _).2 below)

end Quotient

/-! ### The numbers that round to a float -/

/-- How far below its mantissa a float reaches. -/
def gapBelow (m : ℕ) (e : ℤ) : ℚ := if m = 2 ^ 52 ∧ e > minExponent then 1 / 4 else 1 / 2

/-- The number rounds to `m * 2 ^ e`: it is at most half a unit above and `gapBelow` units below, and on the border
only if the mantissa is even. -/
structure Near (m : ℕ) (e : ℤ) (x : ℚ) : Prop where
  low : (m - gapBelow m e) * 2 ^ e ≤ x
  high : x ≤ (m + 1 / 2) * 2 ^ e
  tie : m % 2 = 0 ∨ ((m - gapBelow m e) * 2 ^ e < x ∧ x < (m + 1 / 2) * 2 ^ e)

theorem gapBelow_le (m : ℕ) (e : ℤ) : gapBelow m e ≤ 1 / 2 := by
  unfold gapBelow
  split <;> norm_num

/-- The bits of a quotient that is rounded to a canonical pair, the mantissa perhaps carried over. -/
theorem nearestBits_eq {num den : ℕ} (hn : num ≠ 0) (hd : den ≠ 0) {k : ℤ} (low : 2 ^ k ≤ (num : ℚ) / den)
    (high : (num : ℚ) / den < 2 ^ (k + 1)) {e : ℤ} (he : max minExponent (k - 52) = e) {m q : ℕ} {f : ℤ}
    (hq : roundQuotient (num * 2 ^ (-e).toNat) (den * 2 ^ e.toNat) = q) (canonical : Canonical m f)
    (carry : (if q = 2 ^ 53 then ((2 ^ 52, e + 1) : ℕ × ℤ) else (q, e)) = (m, f)) :
    nearestBits num den = magnitude m f := by
  have exponent := exponent_eq hn hd low high
  have guess : (if num * 2 ^ (-((num.log2 : ℤ) - den.log2)).toNat < den * 2 ^ ((num.log2 : ℤ) - den.log2).toNat then
      (num.log2 : ℤ) - den.log2 - 52 - 1 else (num.log2 : ℤ) - den.log2 - 52) = k - 52 := by
    rw [← exponent]
    split <;> ring
  have bits : ((fractionBits : ℕ) : ℤ) = 52 := rfl
  have most := canonical.most
  unfold nearestBits magnitude
  simp only [Nat.pow_eq, if_neg hn, bits, sub_add_cancel, decide_eq_true_eq, guess, he, hq, carry]
  split
  · rfl
  · rw [if_neg (by omega)]

/-- A number near a float, at the float's own exponent. -/
theorem Near.round {m : ℕ} {e : ℤ} {num den : ℕ} (hd : den ≠ 0) (near : Near m e (num / den)) :
    roundQuotient (num * 2 ^ (-e).toNat) (den * 2 ^ e.toNat) = m := by
  have power : (0 : ℚ) < 2 ^ e := by positivity
  have gap := gapBelow_le m e
  have low := (le_div_iff₀ power).2 near.low
  have high := (div_le_iff₀ power).2 near.high
  have tie := near.tie
  rw [← lt_div_iff₀ power, ← div_lt_iff₀ power] at tie
  have scaled := scaled_div two_ne_zero num den e
  rw [Nat.cast_ofNat] at scaled
  refine roundQuotient_of_near (Nat.mul_pos (Nat.pos_of_ne_zero hd) (Nat.two_pow_pos _)) ?_ ?_ ?_
  · rw [scaled]; linarith
  · rw [scaled]; linarith
  · rw [scaled]
    exact tie.imp id fun strict => ⟨by linarith [strict.1], strict.2⟩

/-- A number near a power of two and below it, at the exponent before. -/
theorem Near.round_below {e : ℤ} {num den : ℕ} (hd : den ≠ 0) (near : Near (2 ^ 52) e (num / den))
    (inner : e > minExponent) (below : (num : ℚ) / den < 2 ^ 52 * 2 ^ e) :
    roundQuotient (num * 2 ^ (-(e - 1)).toNat) (den * 2 ^ (e - 1).toNat) = 2 ^ 53 := by
  have power : (0 : ℚ) < 2 ^ (e - 1) := by positivity
  have step : (2 : ℚ) ^ e = 2 * 2 ^ (e - 1) := by rw [zpow_sub_one₀ two_ne_zero]; ring
  have gap : gapBelow (2 ^ 52) e = 1 / 4 := if_pos ⟨rfl, inner⟩
  have low := near.low
  rw [gap, step] at low
  rw [step] at below
  push_cast at low
  have scaled := scaled_div two_ne_zero num den (e - 1)
  rw [Nat.cast_ofNat] at scaled
  refine roundQuotient_of_near (Nat.mul_pos (Nat.pos_of_ne_zero hd) (Nat.two_pow_pos _)) ?_ ?_ (.inl rfl)
  · rw [scaled, le_div_iff₀ power]
    push_cast
    linarith
  · rw [scaled, div_le_iff₀ power]
    push_cast
    linarith

/-- **Numbers near a float round to it.** -/
theorem nearestBits_of_near {m : ℕ} {e : ℤ} (canonical : Canonical m e) (pos : 0 < m) {num den : ℕ} (hd : den ≠ 0)
    (near : Near m e (num / den)) : nearestBits num den = magnitude m e := by
  have power : (0 : ℚ) < 2 ^ e := by positivity
  have gap := gapBelow_le m e
  have hm : (1 : ℚ) ≤ m := by exact_mod_cast pos
  have hm' : (m : ℚ) + 1 ≤ 2 ^ 53 := by exact_mod_cast canonical.small
  have positive : (0 : ℚ) < num / den := lt_of_lt_of_le (mul_pos (by linarith) power) near.low
  have hn : num ≠ 0 := by
    rintro rfl
    simp at positive
  obtain ⟨k, low, high⟩ : ∃ k : ℤ, (2 : ℚ) ^ k ≤ num / den ∧ (num : ℚ) / den < 2 ^ (k + 1) := by
    obtain ⟨least, most⟩ := div_log2 hn hd
    by_cases below : (num : ℚ) / den < 2 ^ ((num.log2 : ℤ) - den.log2)
    · exact ⟨_, least, by rwa [sub_add_cancel]⟩
    · exact ⟨_, not_lt.1 below, most⟩
  have top : k < e + 53 := by
    refine (zpow_lt_zpow_iff_right₀ (one_lt_two (α := ℚ))).1 (low.trans_lt ?_)
    calc (num : ℚ) / den ≤ (m + 1 / 2) * 2 ^ e := near.high
      _ < 2 ^ 53 * 2 ^ e := mul_lt_mul_of_pos_right (by linarith) power
      _ = 2 ^ (e + 53) := by rw [zpow_add₀ two_ne_zero, mul_comm]; rfl
  have least := canonical.least
  rcases (by omega : max minExponent (k - 52) = e ∨ (minExponent < e ∧ k + 1 ≤ e + 52)) with same | ⟨inner, bottom⟩
  · refine nearestBits_eq hn hd low high same (near.round hd) canonical (if_neg ?_)
    exact canonical.small.ne
  · have below : (num : ℚ) / den < 2 ^ 52 * 2 ^ e := by
      calc (num : ℚ) / den < 2 ^ (k + 1) := high
        _ ≤ 2 ^ (e + 52) := zpow_le_zpow_right₀ one_le_two bottom
        _ = 2 ^ 52 * 2 ^ e := by rw [zpow_add₀ two_ne_zero, mul_comm]; rfl
    have edge : m = 2 ^ 52 := by
      have lower := canonical.normal.resolve_right inner.ne'
      have upper : (m : ℚ) - gapBelow m e < 2 ^ 52 := lt_of_mul_lt_mul_right (near.low.trans_lt below) power.le
      have : (m : ℚ) < 2 ^ 52 + 1 := by linarith
      have : m < 2 ^ 52 + 1 := by exact_mod_cast this
      omega
    subst edge
    have floor : e + 51 < k + 1 := by
      refine (zpow_lt_zpow_iff_right₀ (one_lt_two (α := ℚ))).1 (lt_of_le_of_lt ?_ high)
      calc (2 : ℚ) ^ (e + 51) = 2 ^ 51 * 2 ^ e := by rw [zpow_add₀ two_ne_zero, mul_comm]; rfl
        _ ≤ (((2 ^ 52 : ℕ) : ℚ) - gapBelow (2 ^ 52) e) * 2 ^ e := by
            refine mul_le_mul_of_nonneg_right ?_ power.le
            push_cast
            linarith
        _ ≤ num / den := near.low
    have before : max minExponent (k - 52) = e - 1 := by omega
    refine nearestBits_eq hn hd low high before (near.round_below hd inner below) canonical ?_
    rw [if_pos rfl, sub_add_cancel]

end Binary

end ServerTrial
