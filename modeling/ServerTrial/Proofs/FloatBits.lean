import Mathlib
import ServerTrial.Number.Binary

/-!
# Floats and their bits

* `Real64.ofBits_toBits`: a float is the float of its bits;
* `Binary.Canonical m e`: the mantissas and exponents of finite floats, `Binary.magnitude m e`: their bits;
* `Real64.exact_of_isFinite`, `Real64.eq_of_exact`: a finite float is made of a sign and a canonical pair;
* `Real64.beq_self`: a finite float equals itself.
-/

namespace ServerTrial

open Float.Model Float.Model.UnpackedFloat

namespace Real64

/-! ### Packing what is unpacked -/

theorem toBitVec_ofBitVec (v : BitVec 1) : (Sign.ofBitVec v).toBitVec = v := by
  revert v
  decide

/-- Bits are their sign, exponent and mantissa side by side. -/
theorem packComponents_unpack (b : BitVec Format.binary64.numBits) :
    packComponents .binary64 (Sign.ofBitVec (unpackSign b)) (unpackExponent b) (unpackMantissa b) = b := by
  simp only [packComponents, toBitVec_ofBitVec, unpackSign, unpackExponent, unpackMantissa, BitVec.extractLsb]
  ext i hi
  grind

theorem toNat_unpackExponent (b : BitVec Format.binary64.numBits) :
    (unpackExponent b).toNat = b.toNat / 2 ^ 52 % 2 ^ 11 := by
  simp [unpackExponent, BitVec.extractLsb_toNat, Nat.shiftRight_eq_div_pow]

theorem unpackExponent_eq_zero (b : BitVec Format.binary64.numBits) :
    unpackExponent b = 0#_ ↔ b.toNat / 2 ^ 52 % 2 ^ 11 = 0 := by
  rw [← BitVec.toNat_inj, toNat_unpackExponent]
  rfl

theorem unpackExponent_eq_ones (b : BitVec Format.binary64.numBits) :
    unpackExponent b = (-1#_) ↔ b.toNat / 2 ^ 52 % 2 ^ 11 = 2047 := by
  rw [← BitVec.toNat_inj, toNat_unpackExponent]
  rfl


theorem packComponents_of_unpack {b : BitVec Format.binary64.numBits} {e : BitVec Format.binary64.exponentBits}
    {m : BitVec Format.binary64.mantissaBitsWithoutImplicit} (he : unpackExponent b = e) (hm : unpackMantissa b = m) :
    packComponents .binary64 (Sign.ofBitVec (unpackSign b)) e m = b := by
  rw [← he, ← hm]
  exact packComponents_unpack b

/-- A mantissa without its leading bit takes up to 52 bits. -/
theorem log2_lt {n : Nat} (small : n < 2 ^ 52) : n.log2 + 1 ≠ Format.binary64.mantissaBits := by
  have size : Format.binary64.mantissaBits = 53 := rfl
  rw [size]
  intro h
  have := (Nat.le_log2 (n := n) (k := 52) (by intro zero; rw [zero] at h; exact absurd h (by decide))).1 (by omega)
  omega

theorem pack_unpack {b : BitVec Format.binary64.numBits} (valid : Format.binary64.Valid b) :
    UnpackedFloat.pack .binary64 (UnpackedFloat.unpack .binary64 b) = b := by
  have bias : (Format.binary64.exponentBias : Int) = 1023 := rfl
  have width : (Format.binary64.mantissaBitsWithoutImplicit : Int) = 52 := rfl
  have exponent := toNat_unpackExponent b
  have mantissa : (unpackMantissa b).toNat < 2 ^ 52 := (unpackMantissa b).isLt
  rw [UnpackedFloat.unpack]
  split
  · next ones =>
    split
    · next zero => exact packComponents_of_unpack ones zero
    · next nonzero => exact (valid.eq_packedNaN ones nonzero).symm
  · next notOnes =>
    rw [unpackExponent_eq_ones] at notOnes
    split
    · next least =>
      split
      · next zero => exact packComponents_of_unpack least zero
      · next nonzero =>
        rw [UnpackedFloat.pack, if_neg, if_neg (log2_lt mantissa), BitVec.ofNat_toNat, BitVec.setWidth_eq]
        · exact packComponents_of_unpack least rfl
        · rw [(unpackExponent_eq_zero b).1 least] at exponent
          rw [exponent, bias, width]
          decide
    · next notLeast =>
      rw [unpackExponent_eq_zero] at notLeast
      have leading : (1#1 ++ unpackMantissa b).toNat = 2 ^ 52 + (unpackMantissa b).toNat := by
        rw [BitVec.toNat_append, ← Nat.shiftLeft_add_eq_or_of_lt mantissa]
        rfl
      have size : (1#1 ++ unpackMantissa b).toNat.log2 + 1 = Format.binary64.mantissaBits := by
        have := (Nat.log2_eq_iff (n := (1#1 ++ unpackMantissa b).toNat) (k := 52) (by omega)).2
          (by constructor <;> omega)
        rw [this]
        rfl
      have biased : ((unpackExponent b).toNat - (Format.binary64.exponentBias +
          Format.binary64.mantissaBitsWithoutImplicit) + Format.binary64.exponentBias +
          Format.binary64.mantissaBitsWithoutImplicit : Int).toNat = (unpackExponent b).toNat := by omega
      rw [UnpackedFloat.pack]
      simp only [biased]
      rw [if_neg, if_pos size]
      · refine packComponents_of_unpack ?_ ?_
        · rw [BitVec.ofNat_toNat, BitVec.setWidth_eq]
        · rw [leading, ← BitVec.toNat_inj, BitVec.toNat_ofNat]
          show _ = (2 ^ 52 + (unpackMantissa b).toNat) % 2 ^ 52
          rw [Nat.add_mod_left, Nat.mod_eq_of_lt mantissa]
      · have : b.toNat / 2 ^ 52 % 2 ^ 11 < 2 ^ 11 := Nat.mod_lt _ (by decide)
        rw [exponent]
        show ¬ 2 ^ 11 ≤ _
        omega

/-- **A float is the float of its bits.** -/
theorem ofBits_toBits (x : Float) : Float.ofBits x.toBits = x := by
  obtain ⟨⟨bits, valid⟩⟩ := x
  have same := pack_unpack valid
  show Float.ofModel _ = Float.ofModel _
  congr 1
  unfold Float.Model.ofBits Float.Model.pack
  congr 1
  exact (congrArg UInt64.ofBitVec same)


/-! ### Finite floats -/

theorem isFinite_iff (x : Float) : x.isFinite = true ↔ x.toBits.toNat / 2 ^ 52 % 2 ^ 11 ≠ 2047 := by
  have ones : _ ↔ x.toBits.toNat / 2 ^ 52 % 2 ^ 11 = 2047 := unpackExponent_eq_ones x.toBits.toBitVec
  rw [Ne, ← ones]
  show (UnpackedFloat.unpack .binary64 x.toBits.toBitVec).isFinite = true ↔ _
  rw [UnpackedFloat.unpack]
  split
  · next ones => split <;> simp [UnpackedFloat.isFinite, ones]
  · next notOnes =>
    split
    · split <;> exact ⟨fun _ => notOnes, fun _ => rfl⟩
    · exact ⟨fun _ => notOnes, fun _ => rfl⟩

/-- Finite floats equal themselves. -/
theorem beq_self {x : Float} (finite : x.isFinite = true) : (x == x) = true := by
  show (UnpackedFloat.compare x.toModel.unpack x.toModel.unpack == some .eq) = true
  replace finite : x.toModel.unpack.isFinite = true := finite
  cases h : x.toModel.unpack with
  | notANumber => rw [h] at finite; cases finite
  | infinity s => rw [h] at finite; cases finite
  | zero s => rfl
  | finite s m e pos => cases s <;> simp [UnpackedFloat.compare]

end Real64

namespace Binary

/-- The mantissas and exponents that finite floats have. -/
structure Canonical (m : Nat) (e : Int) : Prop where
  small : m < 2 ^ 53
  least : minExponent ≤ e
  most : e ≤ 971
  normal : 2 ^ 52 ≤ m ∨ e = minExponent

/-- The bits of `m * 2 ^ e`. -/
def magnitude (m : Nat) (e : Int) : Nat := if m < 2 ^ 52 then m else (e + 1075).toNat * 2 ^ 52 + (m - 2 ^ 52)

/-- The bit of the sign. -/
def signBit (negative : Bool) : Nat := if negative then 2 ^ 63 else 0

theorem signBit_of_bits {bits : Nat} (bound : bits < 2 ^ 64) :
    signBit (bits / 2 ^ 63 % 2 == 1) = bits / 2 ^ 63 * 2 ^ 63 := by
  unfold signBit
  split
  · next one => rw [beq_iff_eq] at one; omega
  · next zero => rw [beq_iff_eq] at zero; omega

theorem ofBits_eq_finite {bits : Nat} (bound : bits < 2 ^ 64) {negative : Bool} {m : Nat} {e : Int}
    (h : ofBits bits = .finite negative m e) :
    Canonical m e ∧ bits = signBit negative + magnitude m e := by
  have mod : bits / 2 ^ 52 % 2 ^ 11 < 2 ^ 11 := Nat.mod_lt _ (by decide)
  have rest : bits % 2 ^ 52 < 2 ^ 52 := Nat.mod_lt _ (by decide)
  have parts : bits = bits / 2 ^ 63 * 2 ^ 63 + bits / 2 ^ 52 % 2 ^ 11 * 2 ^ 52 + bits % 2 ^ 52 := by
    have := Nat.div_div_eq_div_mul bits (2 ^ 52) (2 ^ 11)
    omega
  have sign := signBit_of_bits bound
  simp only [ofBits, Nat.pow_eq] at h
  split at h
  · split at h <;> cases h
  · next notOnes =>
    split at h
    · next least =>
      obtain ⟨rfl, rfl, rfl⟩ := finite.inj h
      refine ⟨⟨by omega, Int.le_refl _, by decide, .inr rfl⟩, ?_⟩
      rw [magnitude, if_pos rest]
      omega
    · next notLeast =>
      obtain ⟨rfl, rfl, rfl⟩ := finite.inj h
      refine ⟨⟨by omega, by rw [minExponent]; omega, by omega, .inl (by omega)⟩, ?_⟩
      rw [magnitude, if_neg (by omega)]
      have : (((bits / 2 ^ 52 % 2 ^ 11 : Nat) : Int) - 1075 + 1075).toNat = bits / 2 ^ 52 % 2 ^ 11 := by omega
      rw [this]
      omega

end Binary

namespace Real64

/-- A finite float has a mantissa and an exponent. -/
theorem exact_of_isFinite {x : Float} (finite : x.isFinite = true) :
    ∃ negative m e, exact x = .finite negative m e := by
  rw [isFinite_iff] at finite
  simp only [exact, Binary.ofBits, Nat.pow_eq]
  rw [if_neg finite]
  split
  · exact ⟨_, _, _, rfl⟩
  · exact ⟨_, _, _, rfl⟩

/-- **A float is made of its sign, mantissa and exponent.** -/
theorem eq_of_exact {x : Float} {negative : Bool} {m : Nat} {e : Int} (h : exact x = .finite negative m e) :
    Binary.Canonical m e ∧
      x = Float.ofBits (UInt64.ofNat (Binary.signBit negative + Binary.magnitude m e)) := by
  obtain ⟨canonical, bits⟩ := Binary.ofBits_eq_finite x.toBits.toNat_lt h
  rw [← bits, UInt64.ofNat_toNat]
  exact ⟨canonical, (ofBits_toBits x).symm⟩

end Real64

end ServerTrial
