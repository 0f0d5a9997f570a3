import Loot.Proofs.FloatBits
import Loot.Decimal.Reading

/-!
# Reading decimals as doubles

`toFloat d e` reads `d · 10^e` through the core library's `Float.ofScientific`, which multiplies
or divides by an exact power of ten when the digits and the exponent are small, and otherwise
computes in the core float model. Both paths round once, and `toFloat_eq_of_holds` shows the result
is the double whose reading interval holds the value: every decimal that `shortest` may print for a
double reads back as that double. `Interval.contains_iff` says that the interval test of the
printer is exactly that membership.
-/

open Float.Model Float.Model.UnpackedFloat

namespace Loot.Decimal

/-! ## Rounding a product or a quotient -/

/-- The value of a double's parts lies in its own reading interval. -/
theorem Interval.holds_self {m : Nat} {q : Int} (hm : 0 < m) :
    (Interval.around m q).Holds q (m * 2 ^ q) := by
  have hq := two_zpow_pos q
  have hlo : ((Interval.around m q).lo : ℚ) < 4 * m := by
    have : (Interval.around m q).lo < 4 * m := by
      simp only [Interval.around]; split_ifs <;> omega
    exact_mod_cast this
  have hhi : (4 * m : ℚ) < (Interval.around m q).hi := by
    simp only [Interval.around]; push_cast; linarith
  have hv : (m : ℚ) * 2 ^ q = 4 * m * 2 ^ (q - 2) := by rw [two_zpow_sub_two]; ring
  have hq2 := two_zpow_pos (q - 2)
  have h1 := mul_lt_mul_of_pos_right hlo hq2
  have h2 := mul_lt_mul_of_pos_right hhi hq2
  unfold Interval.Holds
  rw [hv]
  split_ifs
  · exact ⟨h1.le, h2.le⟩
  · exact ⟨h1, h2⟩

/-- Rounding canonical parts exactly leaves them as they are. -/
theorem roundWithAccuracy_canonical {s : Sign} {M : Nat} {E : Int} (hc : Canonical M E)
    (hM : 0 < M) : roundWithAccuracy Format.binary64 s M E .exact = .finite s M E hM := by
  have hrep : Represents (ExtendedMantissa.ofMantissaAndAccuracy M .exact) (M * 2 ^ E / 2 ^ E) := by
    rw [mul_div_assoc, div_self (two_zpow_pos E).ne', mul_one]
    exact represents_exact M
  have hE : E ≤ target M E := by
    rcases hc.normal with hn | hsub
    · exact le_target_of_le_log2 ((Nat.le_log2 hM.ne').2 hn)
    · rw [target, binary64_targetExponent]; omega
  exact roundWithAccuracy_of_holds hrep hE hc hM (Interval.holds_self hM)

/-- A whole number below `2^53`, shifted up to 53 bits, is a normal significand. -/
theorem canonical_shift {d : Nat} (hd : 0 < d) (hlt : d < 2 ^ 53) :
    Canonical (d <<< (52 - d.log2)) ((d.log2 : Int) - 52) := by
  have hlog : d.log2 ≤ 52 := by have := (Nat.log2_lt hd.ne').2 hlt; omega
  have h1 : 2 ^ d.log2 ≤ d := Nat.log2_self_le hd.ne'
  have h2 : d < 2 ^ (d.log2 + 1) := Nat.lt_log2_self
  rw [Nat.shiftLeft_eq]
  refine ⟨?_, by omega, by omega, Or.inl ?_⟩
  · calc d * 2 ^ (52 - d.log2) < 2 ^ (d.log2 + 1) * 2 ^ (52 - d.log2) :=
          Nat.mul_lt_mul_of_pos_right h2 (by positivity)
      _ = 2 ^ 53 := by rw [← Nat.pow_add]; congr 1; omega
  · calc 2 ^ 52 = 2 ^ d.log2 * 2 ^ (52 - d.log2) := by rw [← Nat.pow_add]; congr 1; omega
      _ ≤ d * 2 ^ (52 - d.log2) := Nat.mul_le_mul_right _ h1

/-- A whole number below `2^53` is a double exactly: its bits shifted up to 53. -/
theorem round_of_lt {d : Nat} (hd : 0 < d) (hlt : d < 2 ^ 53) :
    UnpackedFloat.round Format.binary64 .positive d 0 =
      .finite .positive (d <<< (52 - d.log2)) (d.log2 - 52 : Int)
        (by rw [Nat.shiftLeft_eq]; positivity) := by
  have hlog : d.log2 ≤ 52 := by have := (Nat.log2_lt hd.ne').2 hlt; omega
  have ht : Format.binary64.targetExponent (totalExponent d 0) = (d.log2 : Int) - 52 := by
    rw [binary64_targetExponent]; unfold totalExponent; omega
  unfold UnpackedFloat.round decreaseExponent
  simp only [ht]
  have hsh : ((0 : Int) - ((d.log2 : Int) - 52)).toNat = 52 - d.log2 := by omega
  have he : (0 : Int) - ((52 - d.log2 : Nat) : Int) = (d.log2 : Int) - 52 := by omega
  simp only [hsh, he]
  exact roundWithAccuracy_canonical (canonical_shift hd hlt) _

theorem two_zpow_natCast_sub {a b : Int} {n : Nat} (h : (n : Int) = a - b) :
    (2 : ℚ) ^ n = 2 ^ a / 2 ^ b := by
  rw [← zpow_natCast, h, zpow_sub₀ (by norm_num)]

/-- Division computes a quotient with enough bits, and the accuracy of its remainder. -/
theorem divCore_spec {m₁ m₂ : Nat} (h₁ : 0 < m₁) (h₂ : 0 < m₂) (e₁ e₂ : Int) :
    Represents (ExtendedMantissa.ofMantissaAndAccuracy (divCore Format.binary64 m₁ e₁ m₂ e₂).1
        (divCore Format.binary64 m₁ e₁ m₂ e₂).2.2)
      (((m₁ : ℚ) * 2 ^ e₁) / (m₂ * 2 ^ e₂) / 2 ^ (divCore Format.binary64 m₁ e₁ m₂ e₂).2.1) ∧
    (divCore Format.binary64 m₁ e₁ m₂ e₂).2.1 ≤
      target (divCore Format.binary64 m₁ e₁ m₂ e₂).1 (divCore Format.binary64 m₁ e₁ m₂ e₂).2.1 := by
  unfold divCore
  simp only
  generalize hT : min (e₁ - e₂)
    (Format.binary64.targetExponent (totalExponent m₁ e₁ - totalExponent m₂ e₂)) = T
  have hTle : T ≤ e₁ - e₂ := by rw [← hT]; exact min_le_left _ _
  have hsh : ((e₁ - e₂ - T).toNat : Int) = e₁ - e₂ - T := by omega
  generalize (e₁ - e₂ - T).toNat = sh at hsh
  constructor
  · have h := represents_fraction (m₁ <<< sh) m₂ h₂
    convert h using 1
    rw [Nat.shiftLeft_eq]
    push_cast
    rw [two_zpow_natCast_sub hsh, zpow_sub₀ (by norm_num)]
    field_simp
  · -- either the target is the least exponent, or the quotient has at least 53 bits
    by_cases hmin : T ≤ -1074
    · rw [target, binary64_targetExponent]; omega
    · apply le_target_of_le_log2
      have hb : Format.binary64.targetExponent (totalExponent m₁ e₁ - totalExponent m₂ e₂) =
          totalExponent m₁ e₁ - totalExponent m₂ e₂ - 53 := by
        rw [binary64_targetExponent] at hT ⊢
        omega
      have hsh' : m₂.log2 + 53 ≤ m₁.log2 + sh := by
        rw [hb] at hT; unfold totalExponent at hT; omega
      have hq : 2 ^ 52 ≤ m₁ <<< sh / m₂ := by
        rw [Nat.le_div_iff_mul_le h₂, Nat.shiftLeft_eq]
        calc 2 ^ 52 * m₂ ≤ 2 ^ 52 * 2 ^ (m₂.log2 + 1) :=
              Nat.mul_le_mul_left _ (Nat.lt_log2_self).le
          _ = 2 ^ (m₂.log2 + 53) := by rw [← Nat.pow_add]; ring_nf
          _ ≤ 2 ^ (m₁.log2 + sh) := Nat.pow_le_pow_right (by norm_num) hsh'
          _ = 2 ^ m₁.log2 * 2 ^ sh := Nat.pow_add _ _ _
          _ ≤ m₁ * 2 ^ sh := Nat.mul_le_mul_right _ (Nat.log2_self_le h₁.ne')
      exact (Nat.le_log2 (by omega)).2 hq

section Arithmetic

variable {m : Nat} {q : Int} (hc : Canonical m q) (hm : 0 < m)
include hc

/-- A product of finite values whose exact value lies in the reading interval of a double rounds
to that double. -/
theorem mul_finite_of_holds {M₁ M₂ : Nat} {E₁ E₂ : Int} (h₁ : 0 < M₁) (h₂ : 0 < M₂)
    (hbits : 2 ^ 52 ≤ M₁ * M₂)
    (hv : (Interval.around m q).Holds q ((M₁ * 2 ^ E₁) * (M₂ * 2 ^ E₂))) :
    UnpackedFloat.mul Format.binary64 (.finite .positive M₁ E₁ h₁) (.finite .positive M₂ E₂ h₂) =
      .finite .positive m q hm := by
  have hrep : Represents (ExtendedMantissa.ofMantissaAndAccuracy (M₁ * M₂) .exact)
      (((M₁ : ℚ) * 2 ^ E₁) * (M₂ * 2 ^ E₂) / 2 ^ (E₁ + E₂)) := by
    convert represents_exact (M₁ * M₂) using 1
    rw [zpow_add₀ (by norm_num)]
    field_simp
    push_cast; ring
  have hE : E₁ + E₂ ≤ target (M₁ * M₂) (E₁ + E₂) :=
    le_target_of_le_log2 ((Nat.le_log2 (by positivity)).2 hbits)
  exact roundWithAccuracy_of_holds hrep hE hc hm hv

/-- A quotient of finite values whose exact value lies in the reading interval of a double rounds
to that double. -/
theorem div_finite_of_holds {M₁ M₂ : Nat} {E₁ E₂ : Int} (h₁ : 0 < M₁) (h₂ : 0 < M₂)
    (hv : (Interval.around m q).Holds q ((M₁ * 2 ^ E₁) / (M₂ * 2 ^ E₂))) :
    UnpackedFloat.div Format.binary64 (.finite .positive M₁ E₁ h₁) (.finite .positive M₂ E₂ h₂) =
      .finite .positive m q hm := by
  obtain ⟨hrep, hE⟩ := divCore_spec h₁ h₂ E₁ E₂
  simp only [UnpackedFloat.div]
  exact roundWithAccuracy_of_holds hrep hE hc hm hv

end Arithmetic

/-! ## The slow path -/

theorem ten_zpow_eq {k : Nat} : (10 : ℚ) ^ (k : Int) = ((10 ^ k : Nat) : ℚ) := by
  rw [zpow_natCast]; push_cast; rfl

/-- The model's reading of `d · 10^e`, when the value lies in the reading interval of a double
and the exponent is within the model's bounds, is that double. -/
theorem unpacked_ofScientific_of_holds {d : Nat} {e : Int} {m : Nat} {q : Int}
    (hc : Canonical m q) (hm : 0 < m) (hd : 0 < d) (hhi : e ≤ 2 ^ 11)
    (hlo : -((2 ^ 11 : Int) + d.log2) ≤ e)
    (hv : (Interval.around m q).Holds q (d * 10 ^ e)) :
    UnpackedFloat.ofScientific Format.binary64 d e = .finite .positive m q hm := by
  unfold UnpackedFloat.ofScientific
  rw [dif_neg hd.ne', if_neg (by simpa using hhi), if_neg (by simpa using hlo)]
  split_ifs with he
  · -- a whole number: the digits times a power of ten, exactly
    obtain ⟨k, rfl⟩ : ∃ k : Nat, e = k := ⟨e.toNat, by omega⟩
    have hmb : Format.binary64.mantissaBits = 53 := rfl
    apply mul_finite_of_holds hc hm
    · rw [Nat.shiftLeft_eq, hmb]
      calc 2 ^ 52 ≤ 1 * 2 ^ 53 * 1 := by norm_num
        _ ≤ d * 2 ^ 53 * 10 ^ k :=
          Nat.mul_le_mul (Nat.mul_le_mul_right _ hd) (Nat.one_le_pow _ _ (by norm_num))
    · convert hv using 1
      rw [Nat.shiftLeft_eq, ten_zpow_eq]
      simp only [Int.toNat_natCast, hmb]
      push_cast
      norm_num
      ring
  · -- a fraction: the digits divided by a power of ten
    apply div_finite_of_holds hc hm
    convert hv using 1
    obtain ⟨k, hk⟩ : ∃ k : Nat, e = -k := ⟨(-e).toNat, by omega⟩
    subst hk
    simp only [neg_neg, Int.toNat_natCast, zpow_zero, mul_one, zpow_neg]
    rw [ten_zpow_eq]
    push_cast
    ring

/-! ## The fast path -/

/-- A whole number below `2^53` converts to the double of its value. -/
theorem toModel_toUInt64_toFloat {d : Nat} (hd : 0 < d) (hlt : d < 2 ^ 53) :
    d.toUInt64.toFloat.toModel =
      Float.Model.pack (.finite .positive (d <<< (52 - d.log2)) (d.log2 - 52 : Int)
        (by rw [Nat.shiftLeft_eq]; positivity)) := by
  have hd64 : d.toUInt64.toNat = d := by
    rw [Nat.toUInt64_eq, UInt64.toNat_ofNat']; omega
  show Float.Model.pack (UnpackedFloat.ofUInt64 Format.binary64 d.toUInt64) = _
  unfold UnpackedFloat.ofUInt64 UnpackedFloat.ofNat UnpackedFloat.ofInt UnpackedFloat.normalize
  rw [hd64, show compare (d : Int) 0 = .gt from Int.compare_eq_gt.2 (by omega)]
  simp only [Int.toNat_natCast]
  rw [round_of_lt hd hlt]

/-- A finite positive double is the packing of its parts. -/
theorem toModel_of_ofFloat {x : Float} {M : Nat} {Q : Int} (h : Binary.ofFloat x = .finite false M Q)
    (hM : 0 < M) : x.toModel = Float.Model.pack (.finite .positive M Q hM) := by
  have hc := (Binary.bits_of_ofFloat h).1
  rw [Binary.eq_of_ofFloat_finite h (@Binary.ofFloat_pack .positive _ _ hM hc)]

/-- The powers of ten that the reader multiplies by are `10^n` exactly. -/
theorem powersOfTen_ofFloat : ∀ n (h : n < Float.exactlyRepresentablePowersOfTen.size),
    Binary.ofFloat Float.exactlyRepresentablePowersOfTen[n] =
      .finite false (5 ^ n <<< (52 - (5 ^ n).log2)) ((n : Int) + (5 ^ n).log2 - 52) := by
  decide

/-- Shifting a number up by `52 - b` bits and scaling by `2^(k + b - 52)` is scaling by `2^k`. -/
theorem shiftLeft_mul_two_zpow {x b : Nat} (k : Int) (hb : b ≤ 52) :
    ((x <<< (52 - b) : Nat) : ℚ) * 2 ^ (k + b - 52) = x * 2 ^ k := by
  rw [Nat.shiftLeft_eq]
  push_cast
  rw [← zpow_natCast, mul_assoc, ← zpow_add₀ (by norm_num)]
  congr 2
  omega

theorem log2_five_pow_le {n : Nat} (hn : n < 23) : (5 ^ n).log2 ≤ 52 := by
  have : 5 ^ n < 2 ^ 53 := lt_of_le_of_lt (Nat.pow_le_pow_right (by norm_num) (by omega : n ≤ 22))
    (by norm_num)
  have := (Nat.log2_lt (by positivity)).2 this
  omega

section Fast

variable {d n : Nat} {m : Nat} {q : Int} (hd : 0 < d) (hlt : d < 2 ^ 53)
  (hn : n < Float.exactlyRepresentablePowersOfTen.size)
include hd hlt hn

/-- The parts of the two factors of the fast path: the digits and the power of ten, unpacked. -/
theorem fast_factors :
    d.toUInt64.toFloat.toModel.unpack = .finite .positive (d <<< (52 - d.log2))
        (d.log2 - 52 : Int) (by rw [Nat.shiftLeft_eq]; positivity) ∧
    Float.exactlyRepresentablePowersOfTen[n].toModel.unpack =
      .finite .positive (5 ^ n <<< (52 - (5 ^ n).log2)) ((n : Int) + (5 ^ n).log2 - 52)
        (by rw [Nat.shiftLeft_eq]; positivity) := by
  have hp := powersOfTen_ofFloat n hn
  constructor
  · rw [toModel_toUInt64_toFloat hd hlt]
    exact unpack_pack_finite (canonical_shift hd hlt)
  · rw [toModel_of_ofFloat hp (by rw [Nat.shiftLeft_eq]; positivity)]
    exact unpack_pack_finite (Binary.bits_of_ofFloat hp).1

/-- The value of the two factors of the fast path. -/
theorem fast_factors_value :
    ((d <<< (52 - d.log2) : Nat) : ℚ) * 2 ^ ((d.log2 : Int) - 52) = d ∧
      ((5 ^ n <<< (52 - (5 ^ n).log2) : Nat) : ℚ) * 2 ^ ((n : Int) + (5 ^ n).log2 - 52) =
        10 ^ (n : Int) := by
  have hn' : n < 23 := hn
  have hlog : d.log2 ≤ 52 := by have := (Nat.log2_lt hd.ne').2 hlt; omega
  constructor
  · have := shiftLeft_mul_two_zpow (x := d) 0 hlog
    simpa using this
  · rw [shiftLeft_mul_two_zpow _ (log2_five_pow_le hn'), zpow_natCast, zpow_natCast]
    push_cast
    rw [← mul_pow]; norm_num

/-- The fast path multiplies the digits by an exact power of ten, rounding once. -/
theorem fast_mul_of_holds (hc : Canonical m q) (hm : 0 < m)
    (hv : (Interval.around m q).Holds q (d * 10 ^ (n : Int))) :
    d.toUInt64.toFloat * Float.exactlyRepresentablePowersOfTen[n] =
      Float.ofModel (Float.Model.pack (.finite .positive m q hm)) := by
  obtain ⟨ha, hb⟩ := fast_factors hd hlt hn
  obtain ⟨va, vb⟩ := fast_factors_value hd hlt hn
  show Float.ofModel (Float.Model.pack (UnpackedFloat.mul Format.binary64
    d.toUInt64.toFloat.toModel.unpack Float.exactlyRepresentablePowersOfTen[n].toModel.unpack)) = _
  rw [ha, hb, mul_finite_of_holds hc hm _ _ ?_ (by rwa [va, vb])]
  calc 2 ^ 52 ≤ d <<< (52 - d.log2) := (canonical_shift hd hlt).normal.resolve_right (by omega)
    _ ≤ _ := Nat.le_mul_of_pos_right _ (by rw [Nat.shiftLeft_eq]; positivity)

/-- The fast path divides the digits by an exact power of ten, rounding once. -/
theorem fast_div_of_holds (hc : Canonical m q) (hm : 0 < m)
    (hv : (Interval.around m q).Holds q (d * 10 ^ (-(n : Int)))) :
    d.toUInt64.toFloat / Float.exactlyRepresentablePowersOfTen[n] =
      Float.ofModel (Float.Model.pack (.finite .positive m q hm)) := by
  obtain ⟨ha, hb⟩ := fast_factors hd hlt hn
  obtain ⟨va, vb⟩ := fast_factors_value hd hlt hn
  show Float.ofModel (Float.Model.pack (UnpackedFloat.div Format.binary64
    d.toUInt64.toFloat.toModel.unpack Float.exactlyRepresentablePowersOfTen[n].toModel.unpack)) = _
  rw [ha, hb, div_finite_of_holds hc hm _ _ (by rwa [va, vb, div_eq_mul_inv, ← zpow_neg])]

end Fast

/-- The core reading of `d · 10^(±n)`, when the value lies in the reading interval of a double,
is that double, on the fast path and on the slow one. -/
theorem ofScientific_of_holds {d n : Nat} {s : Bool} {m : Nat} {q : Int} (hc : Canonical m q)
    (hm : 0 < m) (hd : 0 < d) (hhi : s = false → n ≤ 2 ^ 11) (hlo : s = true → n ≤ 2 ^ 11 + d.log2)
    (hv : (Interval.around m q).Holds q (d * 10 ^ (if s then -(n : Int) else n))) :
    Float.ofScientific d s n = Float.ofModel (Float.Model.pack (.finite .positive m q hm)) := by
  unfold Float.ofScientific
  split_ifs with hfast hs hs
  · exact fast_div_of_holds hd hfast.1 (by simp [Float.exactlyRepresentablePowersOfTen]; omega)
      hc hm (by simpa [hs] using hv)
  · exact fast_mul_of_holds hd hfast.1 (by simp [Float.exactlyRepresentablePowersOfTen]; omega)
      hc hm (by simpa [hs] using hv)
  · -- the slow path reads through the model with the exponent negated
    show Float.ofModel (Float.Model.pack _) = _
    have hlo' := hlo hs
    rw [Int.negOfNat_eq, unpacked_ofScientific_of_holds hc hm hd (by simp)
      (by simp; omega) (by simpa [hs] using hv)]
  · show Float.ofModel (Float.Model.pack _) = _
    have hhi' := hhi (by simpa using hs)
    rw [unpacked_ofScientific_of_holds hc hm hd (by simp; omega) (by simp; omega)
      (by simpa [hs] using hv)]

/-! ## The guards of `toFloat` -/

theorem digitCount_spec {d : Nat} (hd : 0 < d) :
    0 < digitCount d ∧ 10 ^ (digitCount d - 1) ≤ d ∧ d < 10 ^ digitCount d := by
  have hk : digitCount d = (Nat.toDigits 10 d).length := by simp [digitCount, hd.ne']
  have hpos : 0 < (Nat.toDigits 10 d).length := Nat.length_toDigits_pos
  rw [hk]
  refine ⟨hpos, ?_, (Nat.length_toDigits_le_iff (by decide) hpos).1 le_rfl⟩
  rcases Nat.lt_or_ge 1 (Nat.toDigits 10 d).length with h1 | h1
  · have h := (Nat.length_toDigits_le_iff (b := 10) (n := d)
      (k := (Nat.toDigits 10 d).length - 1) (by decide) (by omega)).not.1 (by omega)
    omega
  · rw [show (Nat.toDigits 10 d).length - 1 = 0 by omega]; simp; omega

theorem ten_zpow_pos (a : Int) : (0 : ℚ) < 10 ^ a := zpow_pos (by norm_num) a

section Guards

variable {d : Nat} {e : Int} {m : Nat} {q : Int} (hc : Canonical m q) (hm : 0 < m)
  (hv : (Interval.around m q).Holds q (d * 10 ^ e))
include hc hm hv

/-- A value in the reading interval of a finite double lies between `2^-1075` and `2^1024`. -/
theorem Interval.Holds.bounds : (2 : ℚ) ^ (-1075 : Int) ≤ d * 10 ^ e ∧ (d : ℚ) * 10 ^ e < 2 ^ (1024 : Int) := by
  obtain ⟨hlo, -, -, -⟩ := hv.around hm
  have hhi := hv.lt_two_zpow hm hc
  constructor
  · have hm1 : (1 : ℚ) ≤ m := by exact_mod_cast hm
    have := two_zpow_pos q
    calc (2 : ℚ) ^ (-1075 : Int) = 1 / 2 * 2 ^ (-1074 : Int) := by
          rw [show (-1075 : Int) = -1074 - 1 by norm_num, zpow_sub_one₀ (by norm_num)]; ring
      _ ≤ 1 / 2 * 2 ^ q := by gcongr; norm_num; exact hc.min_le
      _ ≤ ((m : ℚ) - 1 / 2) * 2 ^ q := by gcongr; linarith
      _ ≤ _ := hlo
  · exact lt_of_lt_of_le hhi (zpow_le_zpow_right₀ (by norm_num) (by have := hc.le_max; omega))

theorem Interval.Holds.digits_pos : 0 < d := by
  rcases Nat.eq_zero_or_pos d with h0 | h
  · have := (hv.bounds hc hm).1
    rw [h0, Nat.cast_zero, zero_mul] at this
    exact absurd this (not_le.2 (two_zpow_pos _))
  · exact h


/-- The first digit of a double's reading stands below `10^309`. -/
theorem Interval.Holds.top_le : e + digitCount d ≤ 310 := by
  have hd := hv.digits_pos hc hm
  obtain ⟨hk, hlo, -⟩ := digitCount_spec hd
  have hv' := (hv.bounds hc hm).2
  by_contra h
  have h1 : (10 : ℚ) ^ (309 : Int) ≤ 10 ^ ((digitCount d - 1 : Nat) : Int) * 10 ^ e := by
    rw [← zpow_add₀ (by norm_num)]
    exact zpow_le_zpow_right₀ (by norm_num) (by omega)
  have h2 : (10 : ℚ) ^ ((digitCount d - 1 : Nat) : Int) * 10 ^ e ≤ d * 10 ^ e := by
    apply mul_le_mul_of_nonneg_right _ (ten_zpow_pos e).le
    rw [zpow_natCast]; exact_mod_cast hlo
  have h3 : (2 : ℚ) ^ (1024 : Int) < 10 ^ (309 : Int) := by
    rw [show (1024 : Int) = ((1024 : Nat) : Int) from rfl,
      show (309 : Int) = ((309 : Nat) : Int) from rfl, zpow_natCast, zpow_natCast]
    exact_mod_cast (show (2 : Nat) ^ 1024 < 10 ^ 309 by decide +kernel)
  generalize (10 : ℚ) ^ (309 : Int) = B at h1 h3
  generalize (2 : ℚ) ^ (1024 : Int) = A at hv' h3
  linarith

/-- The first digit of a double's reading stands above `10^-331`. -/
theorem Interval.Holds.le_top : -330 ≤ e + digitCount d := by
  have hd := hv.digits_pos hc hm
  obtain ⟨-, -, hhi⟩ := digitCount_spec hd
  have hv' := (hv.bounds hc hm).1
  by_contra h
  have h1 : (10 : ℚ) ^ (digitCount d : Int) * 10 ^ e ≤ 10 ^ (-331 : Int) := by
    rw [← zpow_add₀ (by norm_num)]
    exact zpow_le_zpow_right₀ (by norm_num) (by omega)
  have h2 : (d : ℚ) * 10 ^ e < 10 ^ (digitCount d : Int) * 10 ^ e := by
    apply mul_lt_mul_of_pos_right _ (ten_zpow_pos e)
    rw [zpow_natCast]; exact_mod_cast hhi
  have h3 : (10 : ℚ) ^ (-331 : Int) < 2 ^ (-1075 : Int) := by
    rw [show (-331 : Int) = -((331 : Nat) : Int) from rfl,
      show (-1075 : Int) = -((1075 : Nat) : Int) from rfl, zpow_neg, zpow_neg, zpow_natCast,
      zpow_natCast, inv_lt_inv₀ (by positivity) (by positivity)]
    exact_mod_cast (show (2 : Nat) ^ 1075 < 10 ^ 331 by decide +kernel)
  generalize (10 : ℚ) ^ (-331 : Int) = B at h1 h3
  generalize (2 : ℚ) ^ (-1075 : Int) = A at hv' h3
  linarith

/-- A negative exponent of a double's reading is within the model's bound. -/
theorem Interval.Holds.neg_exponent_le : -e ≤ 2 ^ 11 + d.log2 := by
  have hd := hv.digits_pos hc hm
  have hv' := (hv.bounds hc hm).1
  by_contra h
  obtain ⟨j, hj⟩ : ∃ j : Nat, e = -j := ⟨(-e).toNat, by omega⟩
  subst hj
  have hj' : d.log2 + 1 + 1076 ≤ j := by omega
  have hd2 : (d : ℚ) < 2 ^ (d.log2 + 1) := by exact_mod_cast Nat.lt_log2_self
  -- the digits over `10^j` are below `2^(log2 d + 1) / 2^j ≤ 2^-1076`
  have hsmall : (d : ℚ) * 10 ^ (-(j : Int)) < 2 ^ (-1075 : Int) := by
    rw [zpow_neg, zpow_natCast, ← div_eq_mul_inv]
    calc (d : ℚ) / 10 ^ j ≤ d / 2 ^ j :=
          div_le_div_of_nonneg_left (by positivity) (by positivity)
            (pow_le_pow_left₀ (by norm_num) (by norm_num) j)
      _ < 2 ^ (d.log2 + 1) / 2 ^ j := div_lt_div_of_pos_right hd2 (by positivity)
      _ ≤ 2 ^ (d.log2 + 1) / (2 ^ (d.log2 + 1) * 2 ^ 1076) := by
          apply div_le_div_of_nonneg_left (by positivity) (by positivity)
          rw [← pow_add]; exact pow_le_pow_right₀ (by norm_num) hj'
      _ = 2 ^ (-1076 : Int) := by field_simp
      _ < 2 ^ (-1075 : Int) := zpow_lt_zpow_right₀ (by norm_num) (by norm_num)
  linarith

end Guards

/-! ## Reading -/

/-- The core reading of `d · 10^e`, when the value lies in the reading interval of a double, is
that double. -/
theorem toFloat_of_holds {d : Nat} {e : Int} {m : Nat} {q : Int} (hc : Canonical m q)
    (hm : 0 < m) (hv : (Interval.around m q).Holds q (d * 10 ^ e)) :
    toFloat d e = Float.ofModel (Float.Model.pack (.finite .positive m q hm)) := by
  have hd := hv.digits_pos hc hm
  have htop := hv.top_le hc hm
  unfold toFloat
  dsimp only
  rw [if_neg hd.ne', if_neg (not_lt.2 htop), if_neg (not_lt.2 (hv.le_top hc hm))]
  split_ifs with he
  · obtain ⟨n, rfl⟩ : ∃ n : Nat, e = n := ⟨e.toNat, by omega⟩
    exact ofScientific_of_holds hc hm hd (fun _ => by omega) (by simp) (by simpa using hv)
  · obtain ⟨n, rfl⟩ : ∃ n : Nat, e = -n := ⟨(-e).toNat, by omega⟩
    have hlo := hv.neg_exponent_le hc hm
    exact ofScientific_of_holds hc hm hd (by simp) (fun _ => by omega) (by simpa using hv)

/-- Reading `d · 10^e` gives back a finite positive double whenever the value lies in the
double's reading interval. -/
theorem toFloat_eq_of_holds {d : Nat} {e : Int} {x : Float} {m : Nat} {q : Int}
    (hx : Binary.ofFloat x = .finite false m q) (hm : 0 < m)
    (hv : (Interval.around m q).Holds q (d * 10 ^ e)) : toFloat d e = x := by
  have hc := (Binary.bits_of_ofFloat hx).1
  rw [toFloat_of_holds hc hm hv]
  exact Binary.eq_of_ofFloat_finite (Binary.ofFloat_pack hc) hx

/-! ## Comparing exactly -/

theorem compare_div_div {x y D : ℚ} (hD : 0 < D) : compare (x / D) (y / D) = compare x y := by
  rcases lt_trichotomy x y with h | h | h
  · rw [compare_lt_iff_lt.2 h, compare_lt_iff_lt.2 (div_lt_div_of_pos_right h hD)]
  · rw [h, compare_eq_iff_eq.2 rfl, compare_eq_iff_eq.2 rfl]
  · rw [compare_gt_iff_gt.2 h, compare_gt_iff_gt.2 (div_lt_div_of_pos_right h hD)]

theorem compare_natCast (a b : Nat) : compare (a : ℚ) (b : ℚ) = compare a b := by
  rcases Nat.lt_trichotomy a b with h | h | h
  · rw [compare_lt_iff_lt.2 h, compare_lt_iff_lt.2 (by exact_mod_cast h)]
  · rw [h, compare_eq_iff_eq.2 rfl, compare_eq_iff_eq.2 rfl]
  · rw [compare_gt_iff_gt.2 h, compare_gt_iff_gt.2 (by exact_mod_cast h)]

/-- `cmpScaled` compares `a · 10^e` with `b · 2^p` exactly. -/
theorem cmpScaled_eq (a : Nat) (e : Int) (b : Nat) (p : Int) :
    cmpScaled a e b p = compare ((a : ℚ) * 10 ^ e) ((b : ℚ) * 2 ^ p) := by
  have hD : (0 : ℚ) < 10 ^ (-e).toNat * 2 ^ (-p).toNat := by positivity
  have h10 : (10 : ℚ) ^ e = 10 ^ e.toNat / 10 ^ (-e).toNat := by
    rw [← zpow_natCast, ← zpow_natCast, ← zpow_sub₀ (by norm_num)]; congr 1; omega
  have h2 : (2 : ℚ) ^ p = 2 ^ p.toNat / 2 ^ (-p).toNat := by
    rw [← zpow_natCast, ← zpow_natCast, ← zpow_sub₀ (by norm_num)]; congr 1; omega
  have hl : (a : ℚ) * 10 ^ e = (a * 10 ^ e.toNat * 2 ^ (-p).toNat : Nat) /
      (10 ^ (-e).toNat * 2 ^ (-p).toNat) := by
    rw [h10]; push_cast; field_simp
  have hr : (b : ℚ) * 2 ^ p = (b * 2 ^ p.toNat * 10 ^ (-e).toNat : Nat) /
      (10 ^ (-e).toNat * 2 ^ (-p).toNat) := by
    rw [h2]; push_cast; field_simp
  rw [hl, hr, compare_div_div hD, compare_natCast]
  rfl

/-- `contains` tests membership of the reading interval exactly. -/
theorem Interval.contains_iff (iv : Interval) (q : Int) (d : Nat) (e : Int) :
    iv.contains q d e = true ↔ iv.Holds q (d * 10 ^ e) := by
  unfold Interval.contains Interval.Holds
  simp only [cmpScaled_eq]
  split_ifs
  · simp only [Bool.and_eq_true, bne_iff_ne, compare_ge_iff_ge, compare_le_iff_le]
  · simp only [Bool.and_eq_true, beq_iff_eq, compare_gt_iff_gt, compare_lt_iff_lt]

end Loot.Decimal
