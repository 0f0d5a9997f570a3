import Mathlib.Algebra.Order.Floor.Semifield
import Mathlib.Data.Nat.Cast.Order.Field
import Loot.Proofs.DecimalReading

/-!
# The shortest digits of a double read back

`shortest m q` looks for the fewest significant digits whose value lies in the reading interval
of the double `m · 2^q`, trying the grids of one to sixteen digits and answering on the grid of
seventeen digits with the grid point nearer to the value. The arithmetic it relies on is exact:
`scaledDiv` finds the grid point below the value and `magnitude` the position of its first digit.

Main statements: the chosen digits lie in the reading interval (`shortest_holds`), whatever grid
answers, because on the seventeen-digit grid half a step is less than the gap to the interval's
ends; hence they read back as the double itself (`toFloat_shortest`).
-/

namespace Loot.Decimal

/-! ## Dividing by a power of ten -/

theorem zpow_mul_pow_toNat_neg {b : ℚ} (hb : b ≠ 0) (a : Int) :
    b ^ a * b ^ (-a).toNat = b ^ a.toNat := by
  rw [← zpow_natCast, ← zpow_natCast, ← zpow_add₀ hb]; congr 1; omega

/-- `scaledDiv` finds the point of the grid of `10^e` at or below `m · 2^q`. -/
theorem scaledDiv_bounds (m : Nat) (q e : Int) :
    ((scaledDiv m q e).1 : ℚ) * 10 ^ e ≤ m * 2 ^ q ∧
      (m : ℚ) * 2 ^ q < ((scaledDiv m q e).1 + 1) * 10 ^ e := by
  -- numerator and denominator are `m · 2^q` and `10^e`, both times `F`
  set F : ℚ := 2 ^ (-q).toNat * 10 ^ (-e).toNat with hF
  have hF0 : 0 < F := by positivity
  have hnum : ((m * 2 ^ q.toNat * 10 ^ (-e).toNat : Nat) : ℚ) = m * 2 ^ q * F := by
    push_cast; rw [← zpow_mul_pow_toNat_neg two_ne_zero q]; ring
  have hden : ((2 ^ (-q).toNat * 10 ^ e.toNat : Nat) : ℚ) = 10 ^ e * F := by
    push_cast; rw [← zpow_mul_pow_toNat_neg (by norm_num : (10 : ℚ) ≠ 0) e]; ring
  have hden0 : 0 < 2 ^ (-q).toNat * 10 ^ e.toNat := by positivity
  unfold scaledDiv
  simp only
  generalize m * 2 ^ q.toNat * 10 ^ (-e).toNat = N at hnum
  generalize 2 ^ (-q).toNat * 10 ^ e.toNat = D at hden hden0
  constructor
  · have h : ((N / D : Nat) : ℚ) * D ≤ N := by exact_mod_cast Nat.div_mul_le_self N D
    rw [hnum, hden, ← mul_assoc] at h
    exact le_of_mul_le_mul_right h hF0
  · have h : (N : ℚ) < D * ((N / D : Nat) + 1) := by exact_mod_cast Nat.lt_mul_div_succ N hden0
    rw [hnum, hden] at h
    nlinarith


/-- The value of a double's parts as a fraction of naturals. -/
theorem value_eq_div (m : Nat) (q : Int) :
    (m : ℚ) * 2 ^ q = ((m * 2 ^ q.toNat : Nat) : ℚ) / (2 ^ (-q).toNat : Nat) := by
  rw [eq_div_iff (by positivity)]
  push_cast
  rw [mul_assoc, zpow_mul_pow_toNat_neg two_ne_zero]

theorem ten_zpow_natCast_sub_one {k : Nat} (hk : 0 < k) :
    (10 : ℚ) ^ ((k : Int) - 1) = ((10 ^ (k - 1) : Nat) : ℚ) := by
  rw [show (k : Int) - 1 = ((k - 1 : Nat) : Int) by omega, ten_zpow_eq]

/-- `magnitude m q` is the number of digits before the point of `m · 2^q`: the value lies
between `10^(k-1)` and `10^k`. -/
theorem magnitude_bounds {m : Nat} (q : Int) (hm : 0 < m) :
    (10 : ℚ) ^ (magnitude m q - 1) ≤ m * 2 ^ q ∧ (m : ℚ) * 2 ^ q < 10 ^ magnitude m q := by
  rw [value_eq_div]
  unfold magnitude
  simp only
  generalize hN : m * 2 ^ q.toNat = N
  generalize hD : 2 ^ (-q).toNat = D
  have hN0 : 0 < N := by rw [← hN]; positivity
  have hD0 : 0 < D := by rw [← hD]; positivity
  have hDq : (0 : ℚ) < D := by exact_mod_cast hD0
  split_ifs with h
  · -- at least one: the digits of the whole part
    obtain ⟨hk, hlo, hhi⟩ := digitCount_spec (Nat.div_pos h hD0)
    have hfloor : (N : ℚ) / D < (N / D : Nat) + 1 := by
      have := Nat.lt_floor_add_one ((N : ℚ) / D)
      rwa [Nat.floor_div_eq_div] at this
    constructor
    · rw [ten_zpow_natCast_sub_one hk]
      calc ((10 ^ (digitCount (N / D) - 1) : Nat) : ℚ) ≤ (N / D : Nat) := by exact_mod_cast hlo
        _ ≤ (N : ℚ) / D := Nat.cast_div_le
    · rw [zpow_natCast]
      calc (N : ℚ) / D < (N / D : Nat) + 1 := hfloor
        _ ≤ 10 ^ digitCount (N / D) := by exact_mod_cast hhi
  · -- below one: the digits of the reciprocal, rounded up, less one
    generalize ht : (D + N - 1) / N = t
    have h1 : t * N ≤ D + N - 1 := ht ▸ Nat.div_mul_le_self (D + N - 1) N
    have h2 : D + N - 1 < N * (t + 1) := ht ▸ Nat.lt_mul_div_succ (D + N - 1) hN0
    rw [Nat.mul_comm] at h1
    rw [Nat.mul_succ] at h2
    have hup : D ≤ N * t := by omega
    have ht2 : 2 ≤ t := by
      by_contra hlt
      have : N * t ≤ N * 1 := Nat.mul_le_mul_left N (by omega)
      omega
    have hdown : N * (t - 1) < D := by rw [Nat.mul_sub_one]; omega
    obtain ⟨hk, hlo, hhi⟩ := digitCount_spec (show 0 < t - 1 by omega)
    generalize digitCount (t - 1) = k at hk hlo hhi
    have h10 : (0 : ℚ) < 10 ^ k := by positivity
    constructor
    · rw [show (1 : Int) - k - 1 = -(k : Int) by ring, zpow_neg, zpow_natCast,
        le_div_iff₀ hDq, inv_mul_le_iff₀ h10]
      have : D ≤ 10 ^ k * N := by
        calc D ≤ N * t := hup
          _ ≤ N * 10 ^ k := Nat.mul_le_mul_left N (by omega)
          _ = 10 ^ k * N := Nat.mul_comm _ _
      exact_mod_cast this
    · have h10' : (0 : ℚ) < (10 ^ (k - 1) : Nat) := by positivity
      rw [show (1 : Int) - k = -((k : Int) - 1) by ring, zpow_neg, ten_zpow_natCast_sub_one hk,
        div_lt_iff₀ hDq, lt_inv_mul_iff₀ h10']
      have : 10 ^ (k - 1) * N < D := by
        calc 10 ^ (k - 1) * N ≤ (t - 1) * N := Nat.mul_le_mul_right N hlo
          _ = N * (t - 1) := Nat.mul_comm _ _
          _ < D := hdown
      exact_mod_cast this


/-! ## The nearer grid point -/

theorem nearer_eq_or (m : Nat) (q : Int) (c : Nat) (e : Int) :
    nearer m q c e = c ∨ nearer m q c e = c + 1 := by
  unfold nearer
  split
  · exact .inl rfl
  · exact .inr rfl
  · split
    · exact .inl rfl
    · exact .inr rfl

/-- Of the two grid points around the value, `nearer` is within half a step of it. -/
theorem abs_nearer_sub_le {m c : Nat} {q e : Int} (hlo : (c : ℚ) * 10 ^ e ≤ m * 2 ^ q)
    (hhi : (m : ℚ) * 2 ^ q < (c + 1) * 10 ^ e) :
    |(nearer m q c e : ℚ) * 10 ^ e - m * 2 ^ q| ≤ 10 ^ e / 2 := by
  have h10 := ten_zpow_pos e
  rw [abs_le]
  unfold nearer
  split
  next h =>
    -- the midpoint lies above the value: the lower point
    rw [cmpScaled_eq, compare_gt_iff_gt] at h
    push_cast at h
    constructor <;> linarith
  next h =>
    -- the midpoint lies below the value: the upper point
    rw [cmpScaled_eq, compare_lt_iff_lt] at h
    push_cast at h ⊢
    constructor <;> linarith
  next h =>
    -- a tie: both points are half a step away
    rw [cmpScaled_eq, compare_eq_iff_eq] at h
    push_cast at h
    split <;> push_cast <;> constructor <;> linarith

/-! ## Points close to a double read back as it -/

theorem Interval.holds_of_strict {iv : Interval} {q : Int} {x : ℚ}
    (h1 : iv.lo * 2 ^ (q - 2) < x) (h2 : x < iv.hi * 2 ^ (q - 2)) : iv.Holds q x := by
  unfold Interval.Holds
  split_ifs
  · exact ⟨h1.le, h2.le⟩
  · exact ⟨h1, h2⟩

/-- A point within a `2·10^16`-th part of a double's value reads back as that double: the
value's significand has fewer than seventeen digits. -/
theorem Interval.holds_of_close {m : Nat} {q : Int} {x : ℚ} (hm : 0 < m) (hm53 : m < 2 ^ 53)
    (h : |x - m * 2 ^ q| ≤ m * 2 ^ q / (2 * 10 ^ 16)) : (Interval.around m q).Holds q x := by
  have hq := two_zpow_pos q
  rw [abs_le] at h
  have hm' : (m : ℚ) < 2 ^ 53 := by exact_mod_cast hm53
  have hgap : (m : ℚ) * 2 ^ q / (2 * 10 ^ 16) < 2 ^ q / 2 := by
    rw [div_lt_div_iff₀ (by norm_num) (by norm_num)]
    nlinarith
  apply Interval.holds_of_strict
  · simp only [Interval.around]
    rw [two_zpow_sub_two]
    split_ifs with hn
    · -- below a power of two the gap is a quarter step
      have h52 : m = 2 ^ 52 := by
        rw [Bool.and_eq_true, beq_iff_eq] at hn
        exact hn.1
      subst h52
      have hgap' : ((2 ^ 52 : Nat) : ℚ) * 2 ^ q / (2 * 10 ^ 16) < 2 ^ q / 4 := by
        rw [div_lt_div_iff₀ (by norm_num) (by norm_num)]
        push_cast
        nlinarith
      push_cast at h hgap' ⊢
      linarith
    · push_cast [show 2 ≤ 4 * m by omega]
      linarith
  · simp only [Interval.around]
    rw [two_zpow_sub_two]
    push_cast
    linarith


/-! ## The shortest digits read back -/

/-- On the grid of seventeen significant digits the nearer point always reads back. -/
theorem contains_nearer_seventeen {m : Nat} {q : Int} (hc : Canonical m q) (hm : 0 < m) :
    (Interval.around m q).contains q
      (nearer m q (scaledDiv m q (magnitude m q - 17)).1 (magnitude m q - 17))
      (magnitude m q - 17) = true := by
  rw [Interval.contains_iff]
  obtain ⟨hlo, hhi⟩ := scaledDiv_bounds m q (magnitude m q - 17)
  have hnear := abs_nearer_sub_le hlo hhi
  -- the step of the grid is at most a `10^16`-th part of the value
  have hstep : (10 : ℚ) ^ (magnitude m q - 17) * 10 ^ 16 ≤ m * 2 ^ q := by
    have h := (magnitude_bounds q hm).1
    rwa [show magnitude m q - 1 = magnitude m q - 17 + (16 : Nat) by omega, zpow_add₀ (by norm_num),
      zpow_natCast] at h
  apply Interval.holds_of_close hm hc.lt
  calc _ ≤ (10 : ℚ) ^ (magnitude m q - 17) / 2 := hnear
    _ ≤ m * 2 ^ q / (2 * 10 ^ 16) := by
      rw [div_le_div_iff₀ (by norm_num) (by norm_num)]
      linarith

/-- Trying grids from `n` digits on finds a point that reads back, if the last grid's nearer
point does. -/
theorem shortestFrom_contains {m : Nat} {q k : Int} {iv : Interval} (fuel n : Nat)
    (h : iv.contains q (nearer m q (scaledDiv m q (k - (n + fuel : Nat))).1 (k - (n + fuel : Nat)))
      (k - (n + fuel : Nat)) = true) :
    iv.contains q (shortestFrom m q k iv fuel n).1 (shortestFrom m q k iv fuel n).2 = true := by
  induction fuel generalizing n with
  | zero => simpa [shortestFrom] using h
  | succ fuel ih =>
    generalize hp : shortestFrom m q k iv (fuel + 1) n = p
    rw [shortestFrom] at hp
    split at hp <;> subst hp
    next hc hc' =>
      rcases nearer_eq_or m q (scaledDiv m q (k - n)).1 (k - n) with hn | hn <;> rw [hn]
      · exact hc
      · exact hc'
    next hc _ => exact hc
    next hc' => exact hc'
    next =>
      apply ih (n + 1)
      rwa [show n + 1 + fuel = n + (fuel + 1) by omega]

/-- Moving trailing zeros into the exponent keeps the value. -/
theorem trimZeros_value (fuel c : Nat) (e : Int) :
    ((trimZeros fuel c e).1 : ℚ) * 10 ^ (trimZeros fuel c e).2 = c * 10 ^ e := by
  induction fuel generalizing c e with
  | zero => rfl
  | succ fuel ih =>
    unfold trimZeros
    split_ifs with h
    · rw [ih]
      obtain ⟨d, rfl⟩ : 10 ∣ c := Nat.dvd_of_mod_eq_zero h.2
      rw [Nat.mul_div_cancel_left _ (by norm_num), zpow_add_one₀ (by norm_num)]
      push_cast
      ring
    · rfl

/-- The shortest digits of a finite positive double lie in its reading interval. -/
theorem shortest_holds {m : Nat} {q : Int} (hc : Canonical m q) (hm : 0 < m) :
    (Interval.around m q).Holds q ((shortest m q).1 * 10 ^ (shortest m q).2) := by
  have h := shortestFrom_contains 16 1 (contains_nearer_seventeen hc hm)
  unfold shortest
  generalize shortestFrom m q (magnitude m q) (Interval.around m q) 16 1 = p at h
  obtain ⟨c, e⟩ := p
  rw [trimZeros_value]
  exact (Interval.contains_iff _ _ _ _).1 h

/-- The shortest digits of a finite positive double read back as that double. -/
theorem toFloat_shortest {x : Float} {m : Nat} {q : Int} (hx : Binary.ofFloat x = .finite false m q)
    (hm : 0 < m) : toFloat (shortest m q).1 (shortest m q).2 = x :=
  toFloat_eq_of_holds hx hm (shortest_holds (Binary.bits_of_ofFloat hx).1 hm)

end Loot.Decimal
