import Mathlib
import Loot.Decimal.Shortest

/-!
# Rounding to binary64

The core float model rounds a mantissa, an exponent and an accuracy that places the exact value
between the mantissa and the next integer. `Represents em x` gives an extended mantissa its meaning
as a rational, and when the value lies in the reading interval of a double `m · 2^q`, rounding gives
exactly that double (`roundWithAccuracy_of_holds`).
-/

open Float.Model Float.Model.UnpackedFloat

namespace Loot.Decimal

/-! ## Nearest integers -/

/-- `y` rounded to the nearest integer, a tie going to the even one. -/
def roundEven (y : ℚ) : ℤ :=
  if y - ⌊y⌋ < 1 / 2 then ⌊y⌋
  else if 1 / 2 < y - ⌊y⌋ then ⌊y⌋ + 1
  else ⌊y⌋ + ⌊y⌋ % 2

/-- An integer `n` is what `y` rounds to when `y` is within half of it, and a tie at either end
is allowed only for an even `n`. -/
theorem roundEven_eq_of_near {y : ℚ} {n : ℤ} (hlo : (n : ℚ) - 1 / 2 ≤ y) (hhi : y ≤ n + 1 / 2)
    (htie : ((n : ℚ) - 1 / 2 = y ∨ y = n + 1 / 2) → n % 2 = 0) : roundEven y = n := by
  unfold roundEven
  rcases lt_or_ge y n with hy | hy
  · -- below `n` the floor is `n - 1`, and a tie sits at `n - 1/2`
    have hfl : ⌊y⌋ = n - 1 := by
      rw [Int.floor_eq_iff]; push_cast; constructor <;> linarith
    rw [hfl]; push_cast
    rcases lt_or_eq_of_le hlo with hlt | heq
    · rw [if_neg (by linarith), if_pos (by linarith)]; ring
    · have := htie (Or.inl heq)
      rw [if_neg (by linarith), if_neg (by linarith)]; omega
  · -- from `n` on the floor is `n`, and a tie sits at `n + 1/2`
    have hfl : ⌊y⌋ = n := by
      rw [Int.floor_eq_iff]; constructor <;> linarith
    rw [hfl]
    rcases lt_or_eq_of_le hhi with hlt | heq
    · rw [if_pos (by linarith)]
    · have := htie (Or.inr heq)
      rw [if_neg (by linarith), if_neg (by linarith)]; omega

/-! ## Extended mantissas -/

/-- Where `x` lies for an extended mantissa: the mantissa is its integer part, and the round and
sticky bits say whether the rest is zero, below a half, a half, or above it. -/
def Represents (em : ExtendedMantissa) (x : ℚ) : Prop :=
  match em.roundBit, em.stickyBit with
  | false, false => x = em.mantissa
  | false, true => (em.mantissa : ℚ) < x ∧ x < em.mantissa + 1 / 2
  | true, false => x = em.mantissa + 1 / 2
  | true, true => (em.mantissa : ℚ) + 1 / 2 < x ∧ x < em.mantissa + 1

theorem ofMantissaAndAccuracy_mantissa (M : Nat) (acc : Accuracy) :
    (ExtendedMantissa.ofMantissaAndAccuracy M acc).mantissa = M := by
  unfold ExtendedMantissa.ofMantissaAndAccuracy
  split <;> rfl

theorem represents_exact (M : Nat) :
    Represents (ExtendedMantissa.ofMantissaAndAccuracy M .exact) M := by
  simp [Represents, ExtendedMantissa.ofMantissaAndAccuracy]

/-- A quotient with the accuracy of its remainder, as division computes them. -/
theorem represents_fraction (n d : Nat) (hd : 0 < d) :
    Represents (ExtendedMantissa.ofMantissaAndAccuracy (n / d) (accuracyOfFraction (n % d) d))
      ((n : ℚ) / d) := by
  have hdq : (0 : ℚ) < d := by exact_mod_cast hd
  have hsplit : (n : ℚ) / d = (n / d : Nat) + ((n % d : Nat) : ℚ) / d := by
    have h0 : ((n / d : Nat) : ℚ) * d + (n % d : Nat) = n := by
      exact_mod_cast Nat.div_add_mod' n d
    rw [← h0]
    field_simp
  have hlt := Nat.mod_lt n hd
  rw [hsplit]
  unfold accuracyOfFraction
  split_ifs with hr
  · simp [Represents, ExtendedMantissa.ofMantissaAndAccuracy, hr]
  · have hr' : (0 : ℚ) < (n % d : Nat) := by exact_mod_cast Nat.pos_of_ne_zero hr
    have hrd : ((n % d : Nat) : ℚ) < d := by exact_mod_cast hlt
    -- the remainder against half the divisor decides the round and sticky bits
    rcases Nat.lt_trichotomy (2 * (n % d)) d with h | h | h
    · have h' : 2 * ((n % d : Nat) : ℚ) < d := by exact_mod_cast h
      rw [compare_lt_iff_lt.2 h]
      simp only [Represents, ExtendedMantissa.ofMantissaAndAccuracy]
      constructor
      · have := div_pos hr' hdq; linarith
      · rw [add_lt_add_iff_left, div_lt_iff₀ hdq]; linarith
    · have h' : 2 * ((n % d : Nat) : ℚ) = d := by exact_mod_cast h
      rw [compare_eq_iff_eq.2 h]
      simp only [Represents, ExtendedMantissa.ofMantissaAndAccuracy]
      rw [add_right_inj, div_eq_iff hdq.ne']; linarith
    · have h' : (d : ℚ) < 2 * ((n % d : Nat) : ℚ) := by exact_mod_cast h
      rw [compare_gt_iff_gt.2 h]
      simp only [Represents, ExtendedMantissa.ofMantissaAndAccuracy]
      constructor
      · rw [add_lt_add_iff_left, lt_div_iff₀ hdq]; linarith
      · rw [add_lt_add_iff_left, div_lt_one hdq]; exact hrd

/-- Shifting right halves what the extended mantissa stands for. -/
theorem Represents.shiftRightOne {em : ExtendedMantissa} {x : ℚ} (h : Represents em x) :
    Represents em.shiftRightOne (x / 2) := by
  rcases em with ⟨M, r, s⟩
  have hM : (M : ℚ) = 2 * (M / 2 : Nat) + (M % 2 : Nat) := by
    exact_mod_cast (Nat.div_add_mod M 2).symm
  -- the bit shifted out becomes the round bit, the old bits the sticky bit
  rcases Nat.mod_two_eq_zero_or_one M with h2 | h2 <;>
    cases r <;> cases s <;>
    simp_all [Represents, ExtendedMantissa.shiftRightOne] <;>
    first | linarith | (constructor <;> linarith)

theorem Represents.shiftRight {em : ExtendedMantissa} {x : ℚ} (h : Represents em x) (k : Nat) :
    Represents (em >>> k) (x / 2 ^ k) := by
  induction k with
  | zero => simpa [HShiftRight.hShiftRight, Nat.repeat] using h
  | succ k ih =>
    have := ih.shiftRightOne
    rw [pow_succ, ← div_div]
    exact this

theorem Represents.floor {em : ExtendedMantissa} {x : ℚ} (h : Represents em x) :
    ⌊x⌋ = em.mantissa := by
  rcases em with ⟨M, r, s⟩
  rw [Int.floor_eq_iff]
  dsimp only
  push_cast
  cases r <;> cases s <;> simp only [Represents] at h <;>
    (try obtain ⟨h, h'⟩ := h) <;> constructor <;> linarith

/-- The rounded mantissa is the nearest integer, ties to even. -/
theorem Represents.roundedMantissa {em : ExtendedMantissa} {x : ℚ} (h : Represents em x) :
    (em.roundedMantissa : ℤ) = roundEven x := by
  have hf := h.floor
  rcases em with ⟨M, r, s⟩
  unfold roundEven
  rw [hf]
  dsimp only at h ⊢
  push_cast
  cases r <;> cases s <;> simp only [Represents] at h <;>
    simp only [ExtendedMantissa.roundedMantissa, ExtendedMantissa.accuracy,
      Accuracy.roundToNearestEven]
  · rw [if_pos (by linarith)]
  · rw [if_pos (by linarith)]
  · rw [if_neg (by linarith), if_neg (by linarith)]; omega
  · rw [if_neg (by linarith), if_pos (by linarith)]; push_cast; ring

/-! ## Powers of two -/

theorem two_zpow_pos (a : Int) : (0 : ℚ) < 2 ^ a := zpow_pos (by norm_num) a

theorem two_zpow_add_nat (q : Int) (n : Nat) : (2 : ℚ) ^ (q + n) = 2 ^ q * 2 ^ n := by
  rw [zpow_add₀ (by norm_num), zpow_natCast]

theorem two_zpow_add_52 (q : Int) : (2 : ℚ) ^ (q + 52) = 2 ^ q * 2 ^ 52 := by
  simpa using two_zpow_add_nat q 52

theorem two_zpow_add_53 (q : Int) : (2 : ℚ) ^ (q + 53) = 2 ^ q * 2 ^ 53 := by
  simpa using two_zpow_add_nat q 53

theorem two_zpow_sub_two (q : Int) : (2 : ℚ) ^ (q - 2) = 2 ^ q / 4 := by
  rw [zpow_sub₀ (by norm_num)]; norm_num

/-- Bounds on `v` by powers of two are bounds on `v / 2^E` by powers of two. -/
theorem le_div_two_zpow {v : ℚ} {a E : Int} : (2 : ℚ) ^ a ≤ v / 2 ^ E ↔ 2 ^ (a + E) ≤ v := by
  rw [le_div_iff₀ (two_zpow_pos E), zpow_add₀ (by norm_num)]

theorem div_two_zpow_lt {v : ℚ} {a E : Int} : v / 2 ^ E < 2 ^ a ↔ v < 2 ^ (a + E) := by
  rw [div_lt_iff₀ (two_zpow_pos E), zpow_add₀ (by norm_num)]

theorem log2_eq_of_floor {y : ℚ} {M a : Nat} (hM : ⌊y⌋ = M) (hlo : (2 : ℚ) ^ a ≤ y)
    (hhi : y < 2 ^ (a + 1)) : M.log2 = a := by
  have h1 : ((2 ^ a : Nat) : ℤ) ≤ ⌊y⌋ := Int.le_floor.2 (by push_cast; exact hlo)
  have h2 : (⌊y⌋ : ℚ) < 2 ^ (a + 1) := lt_of_le_of_lt (Int.floor_le y) hhi
  rw [hM] at h1 h2
  have h1' : 2 ^ a ≤ M := by exact_mod_cast h1
  have h2' : M < 2 ^ (a + 1) := by exact_mod_cast h2
  exact (Nat.log2_eq_iff (by have := Nat.two_pow_pos a; omega)).2 ⟨h1', h2'⟩

/-! ## The target exponent -/

/-- The exponent binary64 rounds `M · 2^E` to. -/
abbrev target (M : Nat) (E : Int) : Int := Format.binary64.targetExponent (totalExponent M E)

theorem binary64_targetExponent (t : Int) :
    Format.binary64.targetExponent t = max (t - 53) (-1074) := by
  simp [Format.targetExponent, Format.minExponent, Format.mantissaBits]

/-- Where the value lies decides the exponent it is rounded to: `2^j` is its unit in the last
place when it lies from `2^(j+52)` to below `2^(j+53)`, for a normal exponent `j`. -/
theorem target_of_bounds {v : ℚ} {M : Nat} {E j : Int} (hM : ⌊v / 2 ^ E⌋ = M)
    (hE : E ≤ target M E) (hj : -1074 ≤ j) (hlo : (2 : ℚ) ^ (j + 52) ≤ v)
    (hhi : v < 2 ^ (j + 53)) : target M E = j := by
  rw [target, binary64_targetExponent] at hE ⊢
  unfold totalExponent at hE ⊢
  by_cases hk : E ≤ j + 52
  · obtain ⟨a, ha⟩ : ∃ a : Nat, j + 52 - E = a := ⟨(j + 52 - E).toNat, by omega⟩
    have hlo' : (2 : ℚ) ^ a ≤ v / 2 ^ E := by
      rw [← zpow_natCast, le_div_two_zpow, ← ha]; simpa using hlo
    have hhi' : v / 2 ^ E < 2 ^ (a + 1) := by
      rw [← zpow_natCast, div_two_zpow_lt]; push_cast; rw [← ha]
      convert hhi using 2; ring
    rw [log2_eq_of_floor hM hlo' hhi']
    omega
  · -- the value is below one unit of `2^E`, so the mantissa is zero, against `hE`
    have hlt : v / 2 ^ E < 2 ^ (0 : Int) := by
      rw [div_two_zpow_lt, zero_add]
      exact lt_of_lt_of_le hhi (zpow_le_zpow_right₀ (by norm_num) (by omega))
    have hM0 : M = 0 := by
      have : ⌊v / 2 ^ E⌋ < 1 := Int.floor_lt.2 (by simpa using hlt)
      omega
    subst hM0
    simp at hE
    omega

/-- A value below the least normal double is rounded to the subnormal exponent. -/
theorem target_of_subnormal {v : ℚ} {M : Nat} {E : Int} (hM : ⌊v / 2 ^ E⌋ = M)
    (hE : E ≤ target M E) (hv : v < 2 ^ (-1022 : Int)) : target M E = -1074 := by
  rw [target, binary64_targetExponent] at hE ⊢
  unfold totalExponent at hE ⊢
  rcases Nat.eq_zero_or_pos M with hM0 | hpos
  · subst hM0
    simp at hE ⊢
    omega
  · have hlo : ((2 ^ M.log2 : Nat) : ℤ) ≤ ⌊v / 2 ^ E⌋ := by
      rw [hM]; exact_mod_cast Nat.log2_self_le hpos.ne'
    have hlo' : (2 : ℚ) ^ (M.log2 : Int) ≤ v / 2 ^ E := by
      rw [zpow_natCast]; exact_mod_cast (Int.le_floor.1 hlo)
    rw [le_div_two_zpow] at hlo'
    have : (M.log2 : Int) + E < -1022 :=
      (zpow_lt_zpow_iff_right₀ (by norm_num : (1 : ℚ) < 2)).1 (lt_of_le_of_lt hlo' hv)
    omega

/-- A mantissa of at least 53 bits is never shifted left by rounding. -/
theorem le_target_of_le_log2 {M : Nat} {E : Int} (h : 52 ≤ M.log2) : E ≤ target M E := by
  rw [target, binary64_targetExponent]
  unfold totalExponent
  omega

/-! ## The two shifts of rounding -/

/-- The first shift of rounding moves a value up to its target exponent, when it is not already
above it. -/
theorem shiftToTargetExponent_of_le {M : Nat} {E : Int} {acc : Accuracy} (hE : E ≤ target M E) :
    shiftToTargetExponent Format.binary64 M E acc =
      (ExtendedMantissa.ofMantissaAndAccuracy M acc >>> (target M E - E).toNat, target M E) := by
  unfold target at hE ⊢
  simp only [shiftToTargetExponent, shiftToExponent, Prod.mk.injEq, true_and]
  omega

/-- A rounded mantissa that still fits is left where it is by the second shift. -/
theorem shiftToTargetExponent_exact_of_lt {R : Nat} {t : Int} (hR : R < 2 ^ 53)
    (ht : -1074 ≤ t) :
    shiftToTargetExponent Format.binary64 R t .exact = (⟨R, false, false⟩, t) := by
  have hlog : R.log2 < 53 := by
    rcases Nat.eq_zero_or_pos R with h0 | hpos
    · simp [h0]
    · exact (Nat.log2_lt hpos.ne').2 hR
  have hsh : (Format.binary64.targetExponent (totalExponent R t) - t).toNat = 0 := by
    rw [binary64_targetExponent]; unfold totalExponent; omega
  simp only [shiftToTargetExponent, shiftToExponent, hsh]
  simp [HShiftRight.hShiftRight, Nat.repeat, ExtendedMantissa.ofMantissaAndAccuracy]

/-- A rounded mantissa that carried into a new bit is shifted back once, exactly. -/
theorem shiftToTargetExponent_exact_carry {t : Int} (ht : -1074 ≤ t) :
    shiftToTargetExponent Format.binary64 (2 ^ 53) t .exact = (⟨2 ^ 52, false, false⟩, t + 1) := by
  have hsh : (Format.binary64.targetExponent (totalExponent (2 ^ 53) t) - t).toNat = 1 := by
    rw [binary64_targetExponent]; unfold totalExponent; rw [Nat.log2_two_pow]; omega
  simp only [shiftToTargetExponent, shiftToExponent, hsh]
  simp [HShiftRight.hShiftRight, Nat.repeat, ExtendedMantissa.ofMantissaAndAccuracy,
    ExtendedMantissa.shiftRightOne]

/-! ## Reading intervals -/

/-- The rationals in a reading interval of `m · 2^q`, as `contains` tests it. -/
def Interval.Holds (iv : Interval) (q : Int) (v : ℚ) : Prop :=
  if iv.closed then iv.lo * 2 ^ (q - 2) ≤ v ∧ v ≤ iv.hi * 2 ^ (q - 2)
  else iv.lo * 2 ^ (q - 2) < v ∧ v < iv.hi * 2 ^ (q - 2)

/-- A value in the reading interval of `m · 2^q` is within half a unit of `m`, a tie needs an
even `m`, and in the narrow interval below a power of two it is at most a quarter below. -/
theorem Interval.Holds.around {m : Nat} {q : Int} {v : ℚ} (hm : 0 < m)
    (h : (Interval.around m q).Holds q v) :
    ((m : ℚ) - 1 / 2) * 2 ^ q ≤ v ∧ v ≤ (m + 1 / 2) * 2 ^ q ∧
      ((v = (m - 1 / 2) * 2 ^ q ∨ v = (m + 1 / 2) * 2 ^ q) → m % 2 = 0) ∧
      (m = 2 ^ 52 → -1074 < q → ((m : ℚ) - 1 / 4) * 2 ^ q ≤ v) := by
  have hq := two_zpow_pos q
  have hlo : ((Interval.around m q).lo : ℚ) * 2 ^ (q - 2) =
      if m = 2 ^ 52 ∧ -1074 < q then ((m : ℚ) - 1 / 4) * 2 ^ q else ((m : ℚ) - 1 / 2) * 2 ^ q := by
    simp only [Interval.around, two_zpow_sub_two, Bool.and_eq_true, beq_iff_eq, decide_eq_true_eq]
    split_ifs with hn
    · rw [Nat.cast_sub (by omega)]; push_cast; ring
    · rw [Nat.cast_sub (by omega)]; push_cast; ring
  have hhi : ((Interval.around m q).hi : ℚ) * 2 ^ (q - 2) = ((m : ℚ) + 1 / 2) * 2 ^ q := by
    simp only [Interval.around, two_zpow_sub_two]; push_cast; ring
  have hclosed : (Interval.around m q).closed = true ↔ m % 2 = 0 := by
    simp [Interval.around]
  unfold Interval.Holds at h
  rw [hlo, hhi] at h
  have hquarter : ((m : ℚ) - 1 / 2) * 2 ^ q < ((m : ℚ) - 1 / 4) * 2 ^ q := by
    nlinarith
  by_cases hn : m = 2 ^ 52 ∧ -1074 < q
  · rw [if_pos hn] at h
    by_cases hc : (Interval.around m q).closed = true
    · rw [if_pos hc] at h
      exact ⟨by linarith [h.1], h.2, fun _ => hclosed.1 hc, fun _ _ => h.1⟩
    · rw [if_neg hc] at h
      refine ⟨by linarith [h.1], h.2.le, fun ht => ?_, fun _ _ => h.1.le⟩
      rcases ht with ht | ht <;> linarith [h.1, h.2]
  · rw [if_neg hn] at h
    by_cases hc : (Interval.around m q).closed = true
    · rw [if_pos hc] at h
      exact ⟨h.1, h.2, fun _ => hclosed.1 hc, fun h52 hq' => absurd ⟨h52, hq'⟩ hn⟩
    · rw [if_neg hc] at h
      refine ⟨h.1.le, h.2.le, fun ht => ?_, fun h52 hq' => absurd ⟨h52, hq'⟩ hn⟩
      rcases ht with ht | ht <;> linarith [h.1, h.2]

/-- The parts `m · 2^q` of a finite positive double: a significand of at most 53 bits at an
exponent from the subnormal one up to the greatest, with the hidden bit set unless the exponent is
the subnormal one. -/
structure Canonical (m : Nat) (q : Int) : Prop where
  lt : m < 2 ^ 53
  min_le : -1074 ≤ q
  le_max : q ≤ 971
  normal : 2 ^ 52 ≤ m ∨ q = -1074

section Interval

variable {m : Nat} {q : Int} {v : ℚ} (hm : 0 < m) (hv : (Interval.around m q).Holds q v)
include hm hv

/-- At exponent `q` a value of the reading interval rounds to `m`. -/
theorem Interval.Holds.roundEven_eq : roundEven (v / 2 ^ q) = m := by
  obtain ⟨hlo, hhi, htie, -⟩ := hv.around hm
  have hq := two_zpow_pos q
  apply roundEven_eq_of_near
  · rw [le_div_iff₀ hq]; push_cast; linarith
  · rw [div_le_iff₀ hq]; push_cast; linarith
  · intro ht
    push_cast at ht
    have := htie (by
      rcases ht with ht | ht
      · left; rw [ht, div_mul_cancel₀ _ hq.ne']
      · right; rw [← ht, div_mul_cancel₀ _ hq.ne'])
    omega

theorem Interval.Holds.lt_two_zpow (hc : Canonical m q) : v < 2 ^ (q + 53) := by
  obtain ⟨-, hhi, -, -⟩ := hv.around hm
  have hq := two_zpow_pos q
  have hm53 : (m : ℚ) + 1 ≤ 2 ^ 53 := by exact_mod_cast hc.lt
  rw [two_zpow_add_53]; nlinarith

/-- Below `2^52` units of `2^q` only the smallest normal significand can be read, from the
narrow interval. -/
theorem Interval.Holds.eq_of_below (hc : Canonical m q) (hq : -1074 < q) (hup : v < 2 ^ (q + 52)) :
    m = 2 ^ 52 ∧ ((m : ℚ) - 1 / 4) * 2 ^ q ≤ v := by
  obtain ⟨hlo, -, -, hnarrow⟩ := hv.around hm
  have h2q := two_zpow_pos q
  have hn := hc.normal.resolve_right (by omega)
  have h52 : m = 2 ^ 52 := by
    have : (m : ℚ) - 1 / 2 < 2 ^ 52 := by
      rw [two_zpow_add_52] at hup
      nlinarith
    have : m < 2 ^ 52 + 1 := by
      have : (m : ℚ) < 2 ^ 52 + 1 := by linarith
      exact_mod_cast this
    omega
  exact ⟨h52, hnarrow h52 hq⟩

end Interval

/-! ## Rounding into a reading interval -/

section Rounding

variable {s : Sign} {M : Nat} {E : Int} {acc : Accuracy} {v : ℚ}
  (hrep : Represents (ExtendedMantissa.ofMantissaAndAccuracy M acc) (v / 2 ^ E))
  (hE : E ≤ target M E)
include hrep hE

/-- The first rounding step gives the nearest integer to the value in units of the target. -/
theorem roundedMantissa_first :
    ((shiftToTargetExponent Format.binary64 M E acc).1.roundedMantissa : ℤ) =
      roundEven (v / 2 ^ target M E) := by
  rw [shiftToTargetExponent_of_le hE, (hrep.shiftRight _).roundedMantissa]
  congr 1
  rw [div_div, ← zpow_natCast, ← zpow_add₀ (by norm_num)]
  congr 2
  omega

/-- Rounding without a carry: the nearest integer at the target exponent is the mantissa. -/
theorem roundWithAccuracy_eq_of_lt {R : Nat} (hR : roundEven (v / 2 ^ target M E) = R)
    (hpos : 0 < R) (hlt : R < 2 ^ 53) :
    roundWithAccuracy Format.binary64 s M E acc = .finite s R (target M E) hpos := by
  have h1 := roundedMantissa_first hrep hE
  rw [hR] at h1
  have h1' : (shiftToTargetExponent Format.binary64 M E acc).1.roundedMantissa = R := by
    exact_mod_cast h1
  have ht : (shiftToTargetExponent Format.binary64 M E acc).2 = target M E := by
    rw [shiftToTargetExponent_of_le hE]
  have hmin : -1074 ≤ target M E := by
    simp only [target, binary64_targetExponent]; omega
  unfold roundWithAccuracy
  simp only [h1', ht, shiftToTargetExponent_exact_of_lt hlt hmin, hpos.ne', dite_false]

/-- Rounding with a carry: the nearest integer is `2^53`, which becomes `2^52` one exponent up. -/
theorem roundWithAccuracy_eq_of_carry (hR : roundEven (v / 2 ^ target M E) = 2 ^ 53) :
    roundWithAccuracy Format.binary64 s M E acc =
      .finite s (2 ^ 52) (target M E + 1) (Nat.two_pow_pos 52) := by
  have h1 := roundedMantissa_first hrep hE
  rw [hR] at h1
  have h1' : (shiftToTargetExponent Format.binary64 M E acc).1.roundedMantissa = 2 ^ 53 := by
    exact_mod_cast h1
  have ht : (shiftToTargetExponent Format.binary64 M E acc).2 = target M E := by
    rw [shiftToTargetExponent_of_le hE]
  have hmin : -1074 ≤ target M E := by
    simp only [target, binary64_targetExponent]; omega
  unfold roundWithAccuracy
  simp only [h1', ht, shiftToTargetExponent_exact_carry hmin]
  simp

/-- Rounding a value that lies in the reading interval of a double gives that double. -/
theorem roundWithAccuracy_of_holds {m : Nat} {q : Int} (hc : Canonical m q) (hm : 0 < m)
    (hv : (Interval.around m q).Holds q v) :
    roundWithAccuracy Format.binary64 s M E acc = .finite s m q hm := by
  have hM : ⌊v / 2 ^ E⌋ = M := by
    rw [hrep.floor, ofMantissaAndAccuracy_mantissa]
  -- the exponent the value is rounded to: `q`, or one below in the narrow interval
  by_cases hup : (2 : ℚ) ^ (q + 52) ≤ v
  · have ht : target M E = q :=
      target_of_bounds hM hE hc.min_le hup (by simpa using hv.lt_two_zpow hm hc)
    have h := roundWithAccuracy_eq_of_lt (s := s) hrep hE (R := m)
      (by rw [ht]; exact hv.roundEven_eq hm) hm hc.lt
    rwa [ht] at h
  rw [not_le] at hup
  rcases eq_or_lt_of_le hc.min_le with hsub | hnorm
  · have ht : target M E = q := by
      rw [← hsub]
      exact target_of_subnormal hM hE (by rw [← hsub] at hup; simpa using hup)
    have h := roundWithAccuracy_eq_of_lt (s := s) hrep hE (R := m)
      (by rw [ht]; exact hv.roundEven_eq hm) hm hc.lt
    rwa [ht] at h
  · -- just below a power of two: the value rounds up to `2^53` one exponent down
    obtain ⟨h52, hquarter⟩ := hv.eq_of_below hm hc hnorm hup
    subst h52
    have hhalf : (2 : ℚ) ^ (q - 1) = 2 ^ q / 2 := by rw [zpow_sub_one₀ (by norm_num)]; ring
    rw [two_zpow_add_52] at hup
    push_cast at hquarter
    have ht : target M E = q - 1 := by
      refine target_of_bounds hM hE (by omega) ?_ ?_
      · rw [show q - 1 + 52 = q + 51 by ring, zpow_add₀ (by norm_num)]
        norm_num at hquarter ⊢
        nlinarith [two_zpow_pos q]
      · rw [show q - 1 + 53 = q + 52 by ring, two_zpow_add_52]; exact hup
    have hcarry : roundEven (v / 2 ^ target M E) = 2 ^ 53 := by
      rw [ht, hhalf]
      have := two_zpow_pos q
      apply roundEven_eq_of_near
      · rw [le_div_iff₀ (by positivity)]; push_cast; nlinarith
      · rw [div_le_iff₀ (by positivity)]; push_cast; nlinarith
      · intro _; norm_num
    rw [roundWithAccuracy_eq_of_carry hrep hE hcarry]
    simp only [ht, sub_add_cancel]

end Rounding

end Loot.Decimal
