import ServerTrial.Number.Shortest
import ServerTrial.Proofs.Rounding

/-!
# Shortest decimals read back

* `Shortest.leastPower_bounds`: where the first digit of a quotient stands;
* `Shortest.near_of_holds`: the interval of a float holds numbers near to it only;
* `Shortest.ofMantissa_spec`: the shortest decimal of a float is near to it, and has eighteen digits at most;
* `Binary.ofDecimal_of_near`: a decimal near to a float is read as that float.
-/

namespace ServerTrial.Shortest

open Binary

/-- The number that a decimal stands for. -/
def Decimal.value (d : Decimal) : ℚ := d.digits * 10 ^ d.exponent

/-! ### The interval of a float -/

section Interval

variable {m : ℕ} {e : ℤ}

/-- The gap below in quarters of a unit. -/
theorem gapBelow_eq (m : ℕ) (e : ℤ) :
    gapBelow m e = ((if m = 2 ^ 52 ∧ e > minExponent then 1 else 2 : ℕ) : ℚ) / 4 := by
  unfold gapBelow
  split <;> norm_num

theorem quarters_div (n : ℕ) (e : ℤ) : ((n * 2 ^ e.toNat : ℕ) : ℚ) / (4 * 2 ^ (-e).toNat : ℕ) = n / 4 * 2 ^ e := by
  rw [zpow_eq_div 2 e]
  push_cast
  field_simp

theorem low_div (pos : 0 < m) (e : ℤ) :
    ((interval m e).low : ℚ) / (interval m e).den = (m - gapBelow m e) * 2 ^ e := by
  simp only [interval, Nat.pow_eq]
  rw [quarters_div, gapBelow_eq, Nat.cast_sub (by split <;> omega)]
  push_cast
  ring

theorem high_div (m : ℕ) (e : ℤ) : ((interval m e).high : ℚ) / (interval m e).den = (m + 1 / 2) * 2 ^ e := by
  simp only [interval, Nat.pow_eq]
  rw [quarters_div]
  push_cast
  ring

theorem value_div (m : ℕ) (e : ℤ) : ((interval m e).value : ℚ) / (interval m e).den = m * 2 ^ e := by
  simp only [interval, Nat.pow_eq]
  rw [quarters_div]
  push_cast
  ring

theorem den_pos (m : ℕ) (e : ℤ) : 0 < (interval m e).den :=
  Nat.mul_pos (by decide) (Nat.two_pow_pos _)

/-- What the interval of a float holds is near to it. -/
theorem near_of_holds (pos : 0 < m) {num den : ℕ} (hd : 0 < den) (h : (interval m e).holds num den = true) :
    Near m e (num / den) := by
  have hd' : (0 : ℚ) < den := by exact_mod_cast hd
  have hi : (0 : ℚ) < (interval m e).den := by exact_mod_cast den_pos m e
  have closed : (interval m e).closed = decide (m % 2 = 0) := rfl
  unfold Interval.holds at h
  rw [closed] at h
  split at h
  · next even =>
    rw [decide_eq_true_eq] at even
    simp only [Bool.and_eq_true, decide_eq_true_eq] at h
    refine ⟨?_, ?_, .inl even⟩
    · rw [← low_div pos, div_le_div_iff₀ hi hd']
      exact_mod_cast h.1
    · rw [← high_div, div_le_div_iff₀ hd' hi]
      exact_mod_cast h.2
  · simp only [Bool.and_eq_true, decide_eq_true_eq] at h
    have low : (m - gapBelow m e) * 2 ^ e < (num : ℚ) / den := by
      rw [← low_div pos, div_lt_div_iff₀ hi hd']
      exact_mod_cast h.1
    have high : (num : ℚ) / den < (m + 1 / 2) * 2 ^ e := by
      rw [← high_div, div_lt_div_iff₀ hd' hi]
      exact_mod_cast h.2
    exact ⟨low.le, high.le, .inr ⟨low, high⟩⟩

end Interval

/-! ### The first digit -/

/-- A positive natural starts with its first digit. -/
theorem pow_width {n : ℕ} (pos : 0 < n) : 10 ^ (width n - 1) ≤ n ∧ n < 10 ^ width n := by
  unfold width
  have length : 0 < (Nat.toDigits 10 n).length := Nat.length_toDigits_pos
  refine ⟨?_, (Nat.length_toDigits_le_iff (by decide) length).1 (Nat.le_refl _)⟩
  by_cases one : (Nat.toDigits 10 n).length = 1
  · rw [one]
    exact pos
  · refine Nat.le_of_not_lt fun below => ?_
    have := (Nat.length_toDigits_le_iff (b := 10) (by decide) (by omega : 0 < (Nat.toDigits 10 n).length - 1)).2 below
    omega

theorem div_bounds (num : ℕ) {den : ℕ} (hd : 0 < den) :
    ((num / den : ℕ) : ℚ) ≤ (num : ℚ) / den ∧ (num : ℚ) / den < (num / den : ℕ) + 1 := by
  have hd' : (0 : ℚ) < den := by exact_mod_cast hd
  constructor
  · rw [le_div_iff₀ hd']
    exact_mod_cast Nat.div_mul_le_self num den
  · rw [div_lt_iff₀ hd']
    have : num < (num / den + 1) * den := by
      have := Nat.div_add_mod num den
      have := Nat.mod_lt num hd
      rw [Nat.add_mul, Nat.one_mul, Nat.mul_comm (num / den)]
      omega
    exact_mod_cast this

/-- **The least power of ten above a quotient.** -/
theorem leastPower_bounds {num den : ℕ} (hn : 0 < num) (hd : 0 < den) :
    (10 : ℚ) ^ (leastPower num den - 1) ≤ num / den ∧ (num : ℚ) / den < 10 ^ leastPower num den := by
  have hn' : (0 : ℚ) < num := by exact_mod_cast hn
  have hd' : (0 : ℚ) < den := by exact_mod_cast hd
  simp only [leastPower, Nat.pow_eq]
  split
  · next large =>
    obtain ⟨least, most⟩ := pow_width (Nat.div_pos large hd)
    obtain ⟨floor, ceiling⟩ := div_bounds num hd
    have one : 1 ≤ width (num / den) := Nat.length_toDigits_pos
    constructor
    · have cast : (width (num / den) : ℤ) - 1 = (width (num / den) - 1 : ℕ) := by omega
      rw [cast, zpow_natCast]
      exact le_trans (by exact_mod_cast least) floor
    · rw [zpow_natCast]
      have : ((num / den : ℕ) : ℚ) + 1 ≤ 10 ^ width (num / den) := by exact_mod_cast most
      linarith
  · next small =>
    have inverse : 0 < (den - 1) / num := Nat.div_pos (by omega) hn
    obtain ⟨least, most⟩ := pow_width inverse
    obtain ⟨floor, ceiling⟩ := div_bounds (den - 1) hn
    have one : 1 ≤ width ((den - 1) / num) := Nat.length_toDigits_pos
    have below : ¬ num * 10 ^ (width ((den - 1) / num) - 1) ≥ den := by
      have := Nat.mul_le_mul_left num least
      have := Nat.mul_div_le (den - 1) num
      omega
    rw [if_neg below]
    constructor
    · have cast : 1 - (width ((den - 1) / num) : ℤ) - 1 = -(width ((den - 1) / num) : ℕ) := by omega
      have above : den ≤ 10 ^ width ((den - 1) / num) * num := by
        calc den ≤ num * ((den - 1) / num + 1) := by
              have := Nat.lt_mul_div_succ (den - 1) hn
              omega
          _ ≤ num * 10 ^ width ((den - 1) / num) := Nat.mul_le_mul_left num most
          _ = 10 ^ width ((den - 1) / num) * num := Nat.mul_comm _ _
      rw [cast, zpow_neg, zpow_natCast, inv_le_comm₀ (by positivity) (by positivity), inv_div, div_le_iff₀ hn']
      exact_mod_cast above
    · have cast : 1 - (width ((den - 1) / num) : ℤ) = -((width ((den - 1) / num) - 1 : ℕ) : ℤ) := by omega
      rw [cast, zpow_neg, zpow_natCast, div_lt_iff₀ hd', ← div_eq_inv_mul, lt_div_iff₀ (by positivity)]
      exact_mod_cast Nat.lt_of_not_ge below


/-! ### The digits -/

section Digits

variable {m : ℕ} {e : ℤ}

/-- A candidate is near to the float, and one of the two neighbours of its value. -/
theorem candidate_spec (pos : 0 < m) {g : ℤ} {d : ℕ} (h : candidate (interval m e) g = some d) :
    Near m e (Decimal.value ⟨d, g⟩) ∧ (d : ℚ) ≤ m * 2 ^ e / 10 ^ g + 1 := by
  have scale : 0 < 10 ^ (-g).toNat := Nat.pow_pos (by decide)
  have decimal : ∀ n : ℕ, ((n * 10 ^ g.toNat : ℕ) : ℚ) / (10 ^ (-g).toNat : ℕ) = Decimal.value ⟨n, g⟩ := by
    intro n
    rw [Decimal.value, zpow_eq_div]
    push_cast
    rw [mul_div_assoc]
  have floor : ∀ n : ℕ, n ≤ (interval m e).value * 10 ^ (-g).toNat / ((interval m e).den * 10 ^ g.toNat) + 1 →
      (n : ℚ) ≤ m * 2 ^ e / 10 ^ g + 1 := by
    intro n hn
    have hd : 0 < (interval m e).den * 10 ^ g.toNat := Nat.mul_pos (den_pos m e) (Nat.pow_pos (by decide))
    have bound := (div_bounds ((interval m e).value * 10 ^ (-g).toNat) hd).1
    have scaled := scaled_div (b := 10) (by decide) (interval m e).value (interval m e).den g
    rw [scaled, value_div, Nat.cast_ofNat] at bound
    have : (n : ℚ) ≤ ((interval m e).value * 10 ^ (-g).toNat / ((interval m e).den * 10 ^ g.toNat) : ℕ) + 1 := by
      exact_mod_cast hn
    linarith
  have near : ∀ n : ℕ, (interval m e).holds (n * 10 ^ g.toNat) (10 ^ (-g).toNat) = true →
      Near m e (Decimal.value ⟨n, g⟩) := by
    intro n hn
    rw [← decimal]
    exact near_of_holds pos scale hn
  simp only [candidate, Nat.pow_eq] at h
  split at h
  · cases h
  · next lower _ =>
    cases h
    exact ⟨near _ lower, floor _ (Nat.le_succ _)⟩
  · next _ upper =>
    cases h
    exact ⟨near _ upper, floor _ (Nat.le_refl _)⟩
  · next lower upper =>
    cases h
    split
    · exact ⟨near _ upper, floor _ (Nat.le_refl _)⟩
    · exact ⟨near _ lower, floor _ (Nat.le_succ _)⟩

theorem gapBelow_ge (m : ℕ) (e : ℤ) : 1 / 4 ≤ gapBelow m e := by
  unfold gapBelow
  split <;> norm_num

/-- Eighteen digits are enough, even when the rest is cut off. -/
theorem near_of_floor (canonical : Canonical m e) {p : ℤ} (first : (10 : ℚ) ^ (p - 1) ≤ m * 2 ^ e) {d : ℕ}
    (floor : (d : ℚ) ≤ m * 2 ^ e / 10 ^ (p - 18)) (ceiling : m * 2 ^ e / 10 ^ (p - 18) < (d : ℚ) + 1) :
    Near m e (Decimal.value ⟨d, p - 18⟩) := by
  have unit : (0 : ℚ) < 2 ^ e := by positivity
  have grid : (0 : ℚ) < 10 ^ (p - 18) := by positivity
  have gap := gapBelow_ge m e
  have size : (m : ℚ) < 2 ^ 53 := by exact_mod_cast canonical.small
  have step : (10 : ℚ) ^ (p - 18) * 10 ^ 17 = 10 ^ (p - 1) := by
    rw [← zpow_natCast, ← zpow_add₀ (by norm_num)]
    congr 1
    push_cast
    ring
  rw [le_div_iff₀ grid] at floor
  rw [div_lt_iff₀ grid] at ceiling
  have small : (10 : ℚ) ^ (p - 18) < 1 / 4 * 2 ^ e := by
    have bound : (10 : ℚ) ^ (p - 18) * 10 ^ 17 < 2 ^ 53 * 2 ^ e := by
      rw [step]
      exact lt_of_le_of_lt first (mul_lt_mul_of_pos_right size unit)
    linarith
  have inside : gapBelow m e * 2 ^ e ≥ 1 / 4 * 2 ^ e := mul_le_mul_of_nonneg_right gap unit.le
  have low : (m - gapBelow m e) * 2 ^ e < Decimal.value ⟨d, p - 18⟩ := by
    rw [Decimal.value]
    linarith
  have high : Decimal.value ⟨d, p - 18⟩ < (m + 1 / 2) * 2 ^ e := by
    rw [Decimal.value]
    linarith
  exact ⟨low.le, high.le, .inr ⟨low, high⟩⟩

/-- The search finds a decimal near to the float, of eighteen digits at most. -/
theorem search_spec (canonical : Canonical m e) (pos : 0 < m) {p : ℤ} (first : (10 : ℚ) ^ (p - 1) ≤ m * 2 ^ e)
    (last : (m : ℚ) * 2 ^ e < 10 ^ p) (fuel n : ℕ) (total : n + fuel = 18) :
    Near m e (search (interval m e) p fuel n).value ∧ (search (interval m e) p fuel n).digits ≤ 10 ^ 18 := by
  have places : ∀ n : ℕ, (m : ℚ) * 2 ^ e / 10 ^ (p - n) < 10 ^ n := by
    intro n
    rw [div_lt_iff₀ (by positivity), ← zpow_natCast, ← zpow_add₀ (by norm_num)]
    simpa using last
  induction fuel generalizing n with
  | zero =>
    obtain rfl : n = 18 := by omega
    have hd : 0 < (interval m e).den * 10 ^ (p - 18).toNat := Nat.mul_pos (den_pos m e) (Nat.pow_pos (by decide))
    obtain ⟨floor, ceiling⟩ := div_bounds ((interval m e).value * 10 ^ (-(p - 18)).toNat) hd
    have scaled := scaled_div (b := 10) (by decide) (interval m e).value (interval m e).den (p - 18)
    rw [scaled, value_div, Nat.cast_ofNat] at floor ceiling
    have flip : ((18 : ℕ) : ℤ) - p = -(p - 18) := by push_cast; ring
    rw [search, flip]
    refine ⟨near_of_floor canonical first floor ceiling, ?_⟩
    have := lt_of_le_of_lt floor (places 18)
    exact le_of_lt (by exact_mod_cast this)
  | succ fuel ih =>
    rw [search]
    split
    · next d found =>
      obtain ⟨near, bound⟩ := candidate_spec pos found
      refine ⟨near, ?_⟩
      have : (d : ℚ) < 10 ^ n + 1 := lt_of_le_of_lt bound (by linarith [places n])
      have : d < 10 ^ n + 1 := by exact_mod_cast this
      have : 10 ^ n ≤ 10 ^ 18 := Nat.pow_le_pow_right (by decide) (by omega)
      show d ≤ 10 ^ 18
      omega
    · exact ih (n + 1) (by omega)

theorem strip_spec (fuel : ℕ) (d : Decimal) :
    (strip fuel d).value = d.value ∧ (strip fuel d).digits ≤ d.digits := by
  induction fuel generalizing d with
  | zero => exact ⟨rfl, Nat.le_refl _⟩
  | succ fuel ih =>
    rw [strip]
    split
    · next zero =>
      obtain ⟨value, digits⟩ := ih ⟨d.digits / 10, d.exponent + 1⟩
      refine ⟨?_, digits.trans (Nat.div_le_self _ _)⟩
      have tens : d.digits = d.digits / 10 * 10 := by omega
      rw [value, Decimal.value, Decimal.value, zpow_add_one₀ (by norm_num)]
      dsimp only
      conv_rhs => rw [tens]
      push_cast
      ring
    · exact ⟨rfl, Nat.le_refl _⟩

/-- **The shortest decimal of a float rounds to it.** -/
theorem ofMantissa_spec (canonical : Canonical m e) (pos : 0 < m) :
    Near m e (ofMantissa m e).value ∧ (ofMantissa m e).digits ≤ 10 ^ 18 := by
  have value : 0 < (interval m e).value := Nat.mul_pos (Nat.mul_pos (by decide) pos) (Nat.two_pow_pos _)
  obtain ⟨first, last⟩ := leastPower_bounds value (den_pos m e)
  rw [value_div] at first last
  obtain ⟨near, digits⟩ := search_spec canonical pos first last 17 1 rfl
  obtain ⟨same, fewer⟩ := strip_spec 400 (search (interval m e) (leastPower (interval m e).value (interval m e).den) 17 1)
  refine ⟨?_, fewer.trans digits⟩
  unfold ofMantissa
  rw [same]
  exact near

theorem digits_ne_zero (canonical : Canonical m e) (pos : 0 < m) : (ofMantissa m e).digits ≠ 0 := by
  intro zero
  have near := (ofMantissa_spec canonical pos).1.low
  have gap := gapBelow_le m e
  have one : (1 : ℚ) ≤ m := by exact_mod_cast pos
  rw [Decimal.value, zero, Nat.cast_zero, zero_mul] at near
  have : (0 : ℚ) < (m - gapBelow m e) * 2 ^ e := mul_pos (by linarith) (by positivity)
  linarith

end Digits

end ServerTrial.Shortest

namespace ServerTrial.Binary

/-! ### Reading decimals -/

section Decimal

variable {m : ℕ} {e : ℤ}

/-- The estimate by which far powers are settled: it is off by less than two places. -/
theorem places_estimate {n : ℕ} (pos : n ≠ 0) (small : n ≤ 10 ^ 18) :
    10 ^ (n.log2 * 30103 / 100000) ≤ 10 * n ∧ n < 10 ^ (n.log2 * 30103 / 100000 + 2) := by
  have table : ∀ k < 60, 10 ^ (k * 30103 / 100000) ≤ 10 * 2 ^ k ∧
      2 ^ (k + 1) ≤ 10 ^ (k * 30103 / 100000 + 2) := by decide
  have bound : n.log2 < 60 := (Nat.log2_lt pos).2 (by omega)
  obtain ⟨least, most⟩ := table n.log2 bound
  have below := Nat.log2_self_le pos
  have above : n < 2 ^ (n.log2 + 1) := Nat.lt_log2_self
  exact ⟨by omega, by omega⟩

theorem pow_two_lt_pow_ten {k n : ℕ} (h : k < 3 * n) : (2 : ℚ) ^ (k : ℤ) < 10 ^ (n : ℤ) := by
  rw [zpow_natCast, zpow_natCast]
  calc (2 : ℚ) ^ k < 2 ^ (3 * n) := pow_lt_pow_right₀ one_lt_two h
    _ = 8 ^ n := by rw [pow_mul]; norm_num
    _ ≤ 10 ^ n := pow_le_pow_left₀ (by norm_num) (by norm_num) n

/-- A number near to a float lies in the range of floats. -/
theorem Near.range (canonical : Canonical m e) (pos : 0 < m) {x : ℚ} (near : Near m e x) :
    (2 : ℚ) ^ (-1075 : ℤ) ≤ x ∧ x < 2 ^ (1024 : ℤ) := by
  have unit : (0 : ℚ) < 2 ^ e := by positivity
  have gap := gapBelow_le m e
  have one : (1 : ℚ) ≤ m := by exact_mod_cast pos
  have size : (m : ℚ) + 1 ≤ 2 ^ 53 := by exact_mod_cast canonical.small
  constructor
  · calc (2 : ℚ) ^ (-1075 : ℤ) = 1 / 2 * 2 ^ (-1074 : ℤ) := by
          rw [show (-1075 : ℤ) = -1 + -1074 from rfl, zpow_add₀ two_ne_zero, zpow_neg_one, one_div]
      _ ≤ 1 / 2 * 2 ^ e := by
          refine mul_le_mul_of_nonneg_left (zpow_le_zpow_right₀ one_le_two canonical.least) (by norm_num)
      _ ≤ (m - gapBelow m e) * 2 ^ e := mul_le_mul_of_nonneg_right (by linarith) unit.le
      _ ≤ x := near.low
  · calc x ≤ (m + 1 / 2) * 2 ^ e := near.high
      _ < 2 ^ 53 * 2 ^ e := mul_lt_mul_of_pos_right (by linarith) unit
      _ ≤ 2 ^ 53 * 2 ^ (971 : ℤ) := by
          refine mul_le_mul_of_nonneg_left (zpow_le_zpow_right₀ one_le_two canonical.most) (by norm_num)
      _ = 2 ^ (1024 : ℤ) := by
          rw [show (1024 : ℤ) = 53 + 971 from rfl, zpow_add₀ two_ne_zero]
          rfl

/-- **A decimal near to a float is read as that float.** -/
theorem ofDecimal_of_near (canonical : Canonical m e) (pos : 0 < m) {n : ℕ} {g : ℤ} (small : n ≤ 10 ^ 18)
    (near : Near m e (n * 10 ^ g)) (negative : Bool) :
    ofDecimal negative n g = Float.ofBits (UInt64.ofNat (signBit negative + magnitude m e)) := by
  obtain ⟨least, most⟩ := near.range canonical pos
  have positive : (0 : ℚ) < n * 10 ^ g := lt_of_lt_of_le (by positivity) least
  have hn : n ≠ 0 := by
    rintro rfl
    simp at positive
  obtain ⟨below, above⟩ := places_estimate hn small
  have below' : (10 : ℚ) ^ (n.log2 * 30103 / 100000) ≤ 10 * n := by exact_mod_cast below
  have above' : (n : ℚ) < 10 ^ (n.log2 * 30103 / 100000 + 2) := by exact_mod_cast above
  have grid : (0 : ℚ) < 10 ^ g := by positivity
  have high : ¬ (((n.log2 * 30103 / 100000 : ℕ) : ℤ) + g > 400) := by
    intro far
    have large : (10 : ℚ) ^ (400 : ℤ) ≤ n * 10 ^ g := by
      calc (10 : ℚ) ^ (400 : ℤ) ≤ 10 ^ (((n.log2 * 30103 / 100000 : ℕ) : ℤ) + g - 1) :=
            zpow_le_zpow_right₀ (by norm_num) (by omega)
        _ = 10 ^ (n.log2 * 30103 / 100000) / 10 * 10 ^ g := by
            rw [zpow_sub_one₀ (by norm_num), zpow_add₀ (by norm_num), zpow_natCast]; ring
        _ ≤ n * 10 ^ g := mul_le_mul_of_nonneg_right (by linarith) grid.le
    have beyond : (2 : ℚ) ^ (1024 : ℤ) < 10 ^ (400 : ℤ) := pow_two_lt_pow_ten (k := 1024) (n := 400) (by decide)
    exact lt_asymm most (beyond.trans_le large)
  have low : ¬ (((n.log2 * 30103 / 100000 : ℕ) : ℤ) + g < -400) := by
    intro far
    have tiny : (n : ℚ) * 10 ^ g < 10 ^ (-399 : ℤ) := by
      calc (n : ℚ) * 10 ^ g < 10 ^ (n.log2 * 30103 / 100000 + 2) * 10 ^ g := mul_lt_mul_of_pos_right above' grid
        _ = 10 ^ (((n.log2 * 30103 / 100000 + 2 : ℕ) : ℤ) + g) := by rw [zpow_add₀ (by norm_num), zpow_natCast]
        _ ≤ 10 ^ (-399 : ℤ) := zpow_le_zpow_right₀ (by norm_num) (by push_cast at far ⊢; omega)
    have beyond : (10 : ℚ) ^ (-399 : ℤ) < 2 ^ (-1075 : ℤ) := by
      rw [zpow_neg, zpow_neg]
      exact inv_strictAnti₀ (by positivity) (pow_two_lt_pow_ten (k := 1075) (n := 399) (by decide))
    exact absurd least (not_le.2 (tiny.trans beyond))
  have quotient : ((n * 10 ^ g.toNat : ℕ) : ℚ) / (10 ^ (-g).toNat : ℕ) = n * 10 ^ g := by
    rw [zpow_eq_div]
    push_cast
    rw [mul_div_assoc]
  have bits : nearestBits (n * 10 ^ g.toNat) (10 ^ (-g).toNat) = magnitude m e :=
    nearestBits_of_near canonical pos (Nat.pow_pos (by decide)).ne' (by rwa [quotient])
  have places : (n.log2 : ℤ) * 30103 / 100000 = ((n.log2 * 30103 / 100000 : ℕ) : ℤ) := by push_cast; rfl
  simp only [ofDecimal, Nat.pow_eq]
  rw [places, if_neg (by omega), if_neg high, nearest, bits]
  rfl

end Decimal

end ServerTrial.Binary
