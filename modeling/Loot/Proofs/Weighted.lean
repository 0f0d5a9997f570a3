import Loot.Random.Weighted
import Loot.Proofs.Draw
import Mathlib.Algebra.Order.BigOperators.Group.List
import Mathlib.Algebra.Order.Group.Int
import Mathlib.Order.Interval.Set.Nat

/-!
# Weighted draws with integer weights

For non-negative integer weights with sum `T`, a weighted draw answers nothing without drawing when
`T = 0`, and otherwise draws one roll `r` below `T` and answers the index whose window of running
sums holds `r`, a member of positive weight (`weightedIndex_law`). Weights given as values are
integer weights when each is an integer or a boolean.
-/

namespace Loot.Random

open Loot.Json

variable {s s' : Source}

/-! ## Reading integer weights -/

/-- Weights given as values stand for the integers `ws`, in order: each is an integer, or a
boolean standing for one or zero, as numbers read. -/
def IntWeights (vs : List Value) (ws : List Int) : Prop :=
  vs.map Value.toNum? = ws.map fun w => some (.int w)

@[simp]
theorem intWeights_nil_iff {ws : List Int} : IntWeights [] ws ↔ ws = [] := by
  cases ws with
  | nil => exact ⟨fun _ => rfl, fun _ => rfl⟩
  | cons w ws => simp [IntWeights]

theorem intWeights_cons_iff {v : Value} {vs : List Value} {ws : List Int} :
    IntWeights (v :: vs) ws ↔ ∃ w ws', ws = w :: ws' ∧ v.toNum? = some (.int w) ∧ IntWeights vs ws' := by
  cases ws with
  | nil => simp [IntWeights]
  | cons w ws => simp [IntWeights]

@[simp]
theorem intWeights_map_int (ws : List Int) : IntWeights (ws.map .int) ws := by
  simp [IntWeights, Value.toNum?]

theorem IntWeights.length_eq {vs : List Value} {ws : List Int} (h : IntWeights vs ws) :
    vs.length = ws.length := by
  simpa using congrArg List.length h

/-- The weight at a position stands for the integer at that position. -/
theorem IntWeights.toNum?_getElem {vs : List Value} {ws : List Int} (h : IntWeights vs ws)
    {j : Nat} (hj : j < ws.length) : ∃ hv : j < vs.length, vs[j].toNum? = some (.int ws[j]) := by
  have hlen := h.length_eq
  refine ⟨by omega, ?_⟩
  have := congrArg (·[j]?) h
  simpa [List.getElem?_eq_getElem hj, List.getElem?_eq_getElem (show j < vs.length by omega)]
    using this

/-- A weight among integer weights stands for one of the integers. -/
theorem IntWeights.mem {vs : List Value} {ws : List Int} (h : IntWeights vs ws) {v : Value}
    (hv : v ∈ vs) {w : Int} (hw : v.toNum? = some (.int w)) : w ∈ ws := by
  have hmem := List.mem_map_of_mem (f := Value.toNum?) hv
  rw [h, hw] at hmem
  obtain ⟨w', hw', heq⟩ := List.mem_map.1 hmem
  simp only [Option.some.injEq, Num.int.injEq] at heq
  exact heq ▸ hw'

/-- A weight that stands for a number is checked as that number. -/
theorem weightsOfValues_go_cons {vs₀ rest : List Value} {v : Value} {n : Num}
    (h : v.toNum? = some n) :
    weightsOfValues.go vs₀ (v :: rest) =
      if n.isNeg then do
        throw (Fault.value ("Negative weight in " ++ (← (Value.arr vs₀).literal (drawRoom - 1))))
      else (weightsOfValues.go vs₀ rest).map (n :: ·) := by
  cases v <;> cases h <;> rfl

/-- Refusing a negative weight answers no weights, whether or not its message can be written. -/
theorem negativeWeight_ne_ok (vs₀ : List Value) (ns : List Num) :
    (do throw (Fault.value ("Negative weight in " ++ (← (Value.arr vs₀).literal (drawRoom - 1)))) :
      Except Fault (List Num)) ≠ .ok ns := by
  cases (Value.arr vs₀).literal (drawRoom - 1) <;> intro h <;> cases h

theorem weightsOfValues_go_ints (vs₀ : List Value) :
    ∀ (vs : List Value) (ws : List Int), IntWeights vs ws → (∀ w ∈ ws, 0 ≤ w) →
      weightsOfValues.go vs₀ vs = .ok (ws.map .int)
  | [], ws, hvs, _ => by
    rw [intWeights_nil_iff.1 hvs]
    rfl
  | v :: vs, ws, hvs, hnn => by
    obtain ⟨w, ws, rfl, hv, hvs⟩ := intWeights_cons_iff.1 hvs
    have hw : ¬ w < 0 := Int.not_lt.2 (hnn w List.mem_cons_self)
    have hrest := weightsOfValues_go_ints vs₀ vs ws hvs fun x hx => hnn x (List.mem_cons_of_mem w hx)
    simp [weightsOfValues_go_cons hv, Num.isNeg, hw, hrest, Except.map]

/-- Integer weights read back as themselves once none is negative. -/
theorem weightsOfValues_ints {vs : List Value} {ws : List Int} (hvs : IntWeights vs ws)
    (h : ∀ w ∈ ws, 0 ≤ w) : weightsOfValues vs = .ok (ws.map .int) :=
  weightsOfValues_go_ints _ vs ws hvs h

/-- Reading integer weights fails on a negative one. -/
theorem nonneg_of_weightsOfValues_go (vs₀ : List Value) :
    ∀ {vs : List Value} {ws : List Int} {ns : List Num}, IntWeights vs ws →
      weightsOfValues.go vs₀ vs = .ok ns → ∀ w ∈ ws, 0 ≤ w
  | [], ws, _, hvs, _ => by simp [intWeights_nil_iff.1 hvs]
  | v :: vs, ws, ns, hvs, h => by
    obtain ⟨w, ws, rfl, hv, hvs⟩ := intWeights_cons_iff.1 hvs
    rw [weightsOfValues_go_cons hv] at h
    by_cases hw : w < 0
    · simp only [Num.isNeg, hw, decide_true, if_true] at h
      exact absurd h (negativeWeight_ne_ok vs₀ ns)
    · simp only [Num.isNeg, hw, decide_false, Bool.false_eq_true, if_false] at h
      cases hrest : weightsOfValues.go vs₀ vs with
      | error e => simp [hrest, Except.map] at h
      | ok ns' =>
        intro x hx
        rcases List.mem_cons.1 hx with rfl | hx
        · omega
        · exact nonneg_of_weightsOfValues_go vs₀ hvs hrest x hx

/-- Weights that are read successfully and of which none is a double are integer weights. -/
theorem intWeights_of_weightsOfValues_go (vs₀ : List Value) :
    ∀ {vs : List Value} {ns : List Num}, (∀ v ∈ vs, ∀ x, v ≠ .float x) →
      weightsOfValues.go vs₀ vs = .ok ns → ∃ ws, IntWeights vs ws
  | [], _, _, _ => ⟨[], rfl⟩
  | v :: vs, ns, hvs, h => by
    -- the first weight is an integer or a boolean: a double is excluded, and any other value
    -- fails the reading
    obtain ⟨w, hw⟩ : ∃ w : Int, v.toNum? = some (.int w) := by
      cases v with
      | int n => exact ⟨n, rfl⟩
      | bool b => exact ⟨_, rfl⟩
      | float x => exact absurd rfl (hvs _ List.mem_cons_self x)
      | null | str _ | arr _ | obj _ => cases h
    rw [weightsOfValues_go_cons hw] at h
    split at h
    · exact absurd h (negativeWeight_ne_ok vs₀ ns)
    · cases hrest : weightsOfValues.go vs₀ vs with
      | error e => simp [hrest, Except.map] at h
      | ok ns' =>
        obtain ⟨ws, hws⟩ := intWeights_of_weightsOfValues_go vs₀
          (fun x hx => hvs x (List.mem_cons_of_mem v hx)) hrest
        exact ⟨w :: ws, intWeights_cons_iff.2 ⟨w, ws, rfl, hw, hws⟩⟩

/-! ## Sums and running sums -/

theorem checkWeights_ints {ws : List Int} (h : ∀ w ∈ ws, 0 ≤ w) :
    checkWeights (ws.map .int) = .ok () := by
  have : (ws.map Num.int).any Num.isNeg = false := by
    simp only [List.any_map, List.any_eq_false, Function.comp_apply, Num.isNeg,
      decide_eq_true_eq, Int.not_lt]
    exact h
  simp [checkWeights, this]

theorem foldlM_add_ints : ∀ (ws : List Int) (a : Int),
    (ws.map Num.int).foldlM Num.add (.int a) = .ok (.int (a + ws.sum))
  | [], a => by simp [pure, Except.pure]
  | w :: ws, a => by
    calc ((w :: ws).map Num.int).foldlM Num.add (.int a)
        = (ws.map Num.int).foldlM Num.add (.int (a + w)) := rfl
      _ = .ok (.int (a + w + ws.sum)) := foldlM_add_ints ws (a + w)
      _ = .ok (.int (a + (w :: ws).sum)) := by rw [List.sum_cons, Int.add_assoc]

/-- The total of integer weights is their sum. -/
theorem total_ints (ws : List Int) : total (ws.map .int) = .ok (.int ws.sum) := by
  simpa [total] using foldlM_add_ints ws 0

/-- One step of the running sums of integer weights. -/
theorem firstAbove_int_cons (roll : Nat) (w : Int) (ws : List Num) (a : Int) (i : Nat) :
    firstAbove roll (.int w :: ws) (.int a) i =
      if a + w > roll then .ok (some i) else firstAbove roll ws (.int (a + w)) (i + 1) := by
  by_cases h : a + w > roll <;> simp [firstAbove, Num.add, Num.gtInt, h]

/-- The running sums of integer weights, from `a` on, first exceed the roll at the index whose
window holds it. -/
theorem firstAbove_ints (roll : Nat) : ∀ (ws : List Int) (a : Int) (i : Nat),
    a ≤ roll → roll < a + ws.sum →
      ∃ j, ∃ hj : j < ws.length,
        firstAbove roll (ws.map .int) (.int a) i = .ok (some (i + j)) ∧
        a + (ws.take j).sum ≤ roll ∧ roll < a + (ws.take j).sum + ws[j]
  | [], a, i, hle, hlt => by simp at hlt; omega
  | w :: ws, a, i, hle, hlt => by
    by_cases hw : a + w > roll
    · refine ⟨0, by simp, ?_, by simpa using hle, by simpa using hw⟩
      rw [List.map_cons, firstAbove_int_cons, if_pos hw, Nat.add_zero]
    · have hlt' : roll < (a + w) + ws.sum := by simp at hlt; omega
      obtain ⟨j, hj, hrun, hlo, hhi⟩ := firstAbove_ints roll ws (a + w) (i + 1) (by omega) hlt'
      refine ⟨j + 1, by simpa using hj, ?_, ?_, ?_⟩
      · rw [List.map_cons, firstAbove_int_cons, if_neg hw, hrun, Nat.add_assoc, Nat.add_comm 1 j]
      · simp only [List.take_succ_cons, List.sum_cons]
        omega
      · simp only [List.take_succ_cons, List.sum_cons, List.getElem_cons_succ]
        omega

/-- Running sums that stay at or below the roll never exceed it. -/
theorem firstAbove_ints_of_sum_le (roll : Nat) : ∀ (ws : List Int) (a : Int) (i : Nat),
    (∀ w ∈ ws, 0 ≤ w) → a + ws.sum ≤ roll → firstAbove roll (ws.map .int) (.int a) i = .ok none
  | [], _, _, _, _ => rfl
  | w :: ws, a, i, hnn, hle => by
    have hw : 0 ≤ w := hnn w List.mem_cons_self
    have hrest : 0 ≤ ws.sum := List.sum_nonneg fun x hx => hnn x (List.mem_cons_of_mem w hx)
    rw [List.map_cons, firstAbove_int_cons, if_neg (by simp at hle; omega)]
    exact firstAbove_ints_of_sum_le roll ws (a + w) (i + 1)
      (fun x hx => hnn x (List.mem_cons_of_mem w hx)) (by simp at hle; omega)

/-! ## Windows -/

/-- With non-negative weights the window of an index ends where the window of any later index
starts, so the windows are disjoint and come in order. -/
theorem window_end_le {ws : List Int} (hnn : ∀ w ∈ ws, 0 ≤ w) {i j : Nat} (hi : i < ws.length)
    (hij : i < j) : (ws.take i).sum + ws[i] ≤ (ws.take j).sum := by
  rw [← List.sum_take_succ ws i hi]
  exact (List.take_sublist_take_left hij).sum_le_sum fun w hw => hnn w (List.mem_of_mem_take hw)

/-- The window of an index lies below the total. -/
theorem window_end_le_sum {ws : List Int} (hnn : ∀ w ∈ ws, 0 ≤ w) {i : Nat} (hi : i < ws.length) :
    (ws.take i).sum + ws[i] ≤ ws.sum := by
  rw [← List.sum_take_succ ws i hi]
  exact (List.take_sublist ..).sum_le_sum hnn

/-- A roll lies in the window of at most one index. -/
theorem window_unique {ws : List Int} (hnn : ∀ w ∈ ws, 0 ≤ w) {r : Int} {i j : Nat}
    (hi : i < ws.length) (hj : j < ws.length)
    (hri : (ws.take i).sum ≤ r ∧ r < (ws.take i).sum + ws[i])
    (hrj : (ws.take j).sum ≤ r ∧ r < (ws.take j).sum + ws[j]) : i = j := by
  rcases Nat.lt_trichotomy i j with hij | rfl | hji
  · have := window_end_le hnn hi hij
    omega
  · rfl
  · have := window_end_le hnn hj hji
    omega

/-- Below the total, the running sums of non-negative integer weights first exceed a roll exactly
at the index whose window holds it. -/
theorem firstAbove_ints_eq_some_iff {ws : List Int} (hnn : ∀ w ∈ ws, 0 ≤ w) {r : Nat}
    (hr : (r : Int) < ws.sum) {i : Nat} (hi : i < ws.length) :
    firstAbove r (ws.map .int) (.int 0) 0 = .ok (some i) ↔
      (ws.take i).sum ≤ r ∧ r < (ws.take i).sum + ws[i] := by
  obtain ⟨j, hj, hrun, hlo, hhi⟩ := firstAbove_ints r ws 0 0 (by omega) (by omega)
  simp only [Nat.zero_add, Int.zero_add] at hrun hlo hhi
  rw [hrun]
  constructor
  · intro h
    cases h
    exact ⟨hlo, hhi⟩
  · intro hwin
    rw [window_unique hnn hj hi ⟨hlo, hhi⟩ hwin]

/-- The rolls below the total that land at an index are the rolls of its window, as many as its
weight. -/
theorem ncard_rolls_at_index {ws : List Int} (hnn : ∀ w ∈ ws, 0 ≤ w) {i : Nat}
    (hi : i < ws.length) :
    {r : Nat | (r : Int) < ws.sum ∧ firstAbove r (ws.map .int) (.int 0) 0 = .ok (some i)}.ncard =
      ws[i].toNat := by
  have hstart : 0 ≤ (ws.take i).sum :=
    List.sum_nonneg fun w hw => hnn w (List.mem_of_mem_take hw)
  have hw : 0 ≤ ws[i] := hnn _ (List.getElem_mem hi)
  have hend := window_end_le_sum hnn hi
  have hwindow : {r : Nat | (r : Int) < ws.sum ∧
      firstAbove r (ws.map .int) (.int 0) 0 = .ok (some i)} =
      Set.Ico (ws.take i).sum.toNat ((ws.take i).sum + ws[i]).toNat := by
    ext r
    simp only [Set.mem_ofPred_eq, Set.mem_Ico]
    constructor
    · rintro ⟨hr, h⟩
      obtain ⟨hlo, hhi⟩ := (firstAbove_ints_eq_some_iff hnn hr hi).1 h
      omega
    · intro h
      have hr : (r : Int) < ws.sum := by omega
      exact ⟨hr, (firstAbove_ints_eq_some_iff hnn hr hi).2 ⟨by omega, by omega⟩⟩
  rw [hwindow, Set.ncard_Ico_nat]
  omega

/-! ## The draw -/

/-- A weighted draw over integer weights that sum to zero answers `none` and draws nothing. -/
theorem weightedIndex_ints_of_sum_eq_zero {ws : List Int} (hnn : ∀ w ∈ ws, 0 ≤ w)
    (hz : ws.sum = 0) : (weightedIndex (ws.map .int)).run s = .ok none s := by
  simp [weightedIndex, checkWeights_ints hnn, total_ints, hz, pure]
  rfl

/-- What a weighted draw over non-negative integer weights does: with a zero total it answers
`none` and draws nothing; otherwise it draws one roll below the total and answers the index whose
window holds the roll. -/
theorem weightedIndex_ints_eq_ok {ws : List Int} {o : Option Nat} (hnn : ∀ w ∈ ws, 0 ≤ w)
    (h : (weightedIndex (ws.map .int)).run s = .ok o s') :
    (ws.sum = 0 ∧ o = none ∧ s' = s) ∨
      (0 < ws.sum ∧ ∃ r j, ∃ hj : j < ws.length, (below ws.sum.toNat).run s = .ok r s' ∧
        o = some j ∧ (ws.take j).sum ≤ r ∧ r < (ws.take j).sum + ws[j]) := by
  have hsum : 0 ≤ ws.sum := List.sum_nonneg hnn
  by_cases hz : ws.sum = 0
  · rw [weightedIndex_ints_of_sum_eq_zero hnn hz] at h
    cases h
    exact .inl ⟨hz, rfl, rfl⟩
  · have hpos : 0 < ws.sum := by omega
    refine .inr ⟨hpos, ?_⟩
    simp only [weightedIndex, checkWeights_ints hnn, total_ints] at h
    have hp : (!decide (ws.sum > 0)) = false := by simp [hpos]
    simp only [hp, Bool.false_eq_true, if_false] at h
    obtain ⟨r, s₁, hr, hrest⟩ := run_bind_eq_ok.1 h
    have hrlt : r < ws.sum.toNat := below_lt (by omega) hr
    obtain ⟨j, hj, hfirst, hlo, hhi⟩ :=
      firstAbove_ints r ws 0 0 (by omega) (by omega)
    rw [hfirst] at hrest
    obtain ⟨rfl, rfl⟩ := run_pure_eq_ok.1 hrest
    exact ⟨r, j, hj, hr, by simp, by simpa using hlo, by simpa using hhi⟩

/-- A weighted draw over non-negative integer weights with a positive sum is one roll below the
sum followed by the scan of the running sums. -/
theorem weightedIndex_ints_of_sum_pos {ws : List Int} (hnn : ∀ w ∈ ws, 0 ≤ w) (hpos : 0 < ws.sum) :
    weightedIndex (ws.map .int) =
      below ws.sum.toNat >>= fun r => fromExcept (firstAbove r (ws.map .int) (.int 0) 0) := by
  have hp : (!decide (ws.sum > 0)) = false := by simp [hpos]
  simp only [weightedIndex, checkWeights_ints hnn, total_ints, hp, Bool.false_eq_true, if_false,
    rollBelow]
  refine congrArg (below ws.sum.toNat >>= ·) (funext fun r => ?_)
  cases firstAbove r (ws.map .int) (.int 0) 0 <;> rfl

/-- A list of numbers holding a negative one is refused before anything is drawn, with a message
that lists all of them. -/
theorem weightedIndex_of_neg {ns : List Num} (h : ∃ n ∈ ns, n.isNeg = true) :
    (weightedIndex ns).run s = .error (Fault.value ("Negative weight in " ++ numsLiteral ns)) s := by
  have hany : ns.any Num.isNeg = true := List.any_eq_true.2 h
  simp only [weightedIndex, checkWeights, hany, if_true]
  rfl

/-- The index a weighted draw over non-negative integer weights answers has a positive weight. -/
theorem weightedIndex_ints_pos {ws : List Int} {j : Nat} (hnn : ∀ w ∈ ws, 0 ≤ w)
    (h : (weightedIndex (ws.map .int)).run s = .ok (some j) s') :
    ∃ hj : j < ws.length, 0 < ws[j] := by
  rcases weightedIndex_ints_eq_ok hnn h with ⟨-, h, -⟩ | ⟨-, r, i, hi, -, hij, hlo, hhi⟩
  · cases h
  · cases hij
    exact ⟨hi, by omega⟩

/-- A weighted draw over integer weights given as values succeeds only when none is negative, and
is then the draw over the integers. -/
theorem weightedIndexOf_ints_eq_ok {vs : List Value} {ws : List Int} {o : Option Nat}
    (hvs : IntWeights vs ws) (h : (weightedIndexOf vs).run s = .ok o s') :
    (∀ w ∈ ws, 0 ≤ w) ∧ (weightedIndex (ws.map .int)).run s = .ok o s' := by
  obtain ⟨ns, s₁, hread, hdraw⟩ := run_bind_eq_ok.1 h
  obtain ⟨hns, rfl⟩ := run_fromExcept_eq_ok.1 hread
  have hnn : ∀ w ∈ ws, 0 ≤ w := nonneg_of_weightsOfValues_go _ hvs hns
  rw [weightsOfValues_ints hvs hnn] at hns
  cases hns
  exact ⟨hnn, hdraw⟩

/-- A weighted draw over weights given as values of which none is a double succeeds only when
they are integer weights, none negative, and is then the draw over the integers. -/
theorem weightedIndexOf_eq_ok_of_not_float {vs : List Value} {o : Option Nat}
    (hvs : ∀ v ∈ vs, ∀ x, v ≠ .float x) (h : (weightedIndexOf vs).run s = .ok o s') :
    ∃ ws, IntWeights vs ws ∧ (∀ w ∈ ws, 0 ≤ w) ∧ (weightedIndex (ws.map .int)).run s = .ok o s' := by
  obtain ⟨ns, s₁, hread, -⟩ := run_bind_eq_ok.1 h
  obtain ⟨hns, -⟩ := run_fromExcept_eq_ok.1 hread
  obtain ⟨ws, hws⟩ := intWeights_of_weightsOfValues_go vs hvs hns
  obtain ⟨hnn, hdraw⟩ := weightedIndexOf_ints_eq_ok hws h
  exact ⟨ws, hws, hnn, hdraw⟩

/-- A weighted draw over non-negative integer weights given as values is the draw over the
integers. -/
theorem weightedIndexOf_ints {vs : List Value} {ws : List Int} (hvs : IntWeights vs ws)
    (hnn : ∀ w ∈ ws, 0 ≤ w) : weightedIndexOf vs = weightedIndex (ws.map .int) := by
  funext s
  simp [weightedIndexOf, weightsOfValues_ints hvs hnn, fromExcept]

/-- A weighted draw over non-negative integer weights given as values chooses a position whose
weight is a positive integer. -/
theorem weightedIndexOf_pos {vs : List Value} {ws : List Int} {j : Nat} (hvs : IntWeights vs ws)
    (hnn : ∀ w ∈ ws, 0 ≤ w) (h : (weightedIndexOf vs).run s = .ok (some j) s') :
    ∃ hj : j < vs.length, ∃ w : Int, vs[j].toNum? = some (.int w) ∧ 0 < w := by
  rw [weightedIndexOf_ints hvs hnn] at h
  obtain ⟨hj, hpos⟩ := weightedIndex_ints_pos hnn h
  obtain ⟨hv, hw⟩ := hvs.toNum?_getElem hj
  exact ⟨hv, ws[j], hw, hpos⟩

/-! ## The law of a weighted draw -/

/-- The law of a weighted draw. A list holding a negative number is refused, before anything is
drawn. For non-negative integer weights `w₀, …, wₙ₋₁` with sum `T`:

* the draw answers `none` exactly when `T = 0`, and then it draws nothing;
* when `T > 0` it is one roll below `T`, which lands below `T`, followed by the scan of the running
  sums;
* for every roll `r < T` the scan answers the one index `i` whose window
  `w₀ + … + wᵢ₋₁ ≤ r < w₀ + … + wᵢ` holds `r`, so it never runs past the list, and `wᵢ > 0`;
* of the `T` rolls, exactly `wᵢ` answer `i`. -/
theorem weightedIndex_law :
    (∀ (ns : List Num) (s : Source), (∃ n ∈ ns, n.isNeg = true) →
      (weightedIndex ns).run s = .error (Fault.value ("Negative weight in " ++ numsLiteral ns)) s) ∧
    ∀ ws : List Int, (∀ w ∈ ws, 0 ≤ w) →
      (∀ s s', (weightedIndex (ws.map .int)).run s = .ok none s' ↔ ws.sum = 0 ∧ s' = s) ∧
      (0 < ws.sum →
        weightedIndex (ws.map .int) =
          (below ws.sum.toNat >>= fun r => fromExcept (firstAbove r (ws.map .int) (.int 0) 0)) ∧
        ∀ s r s', (below ws.sum.toNat).run s = .ok r s' → (r : Int) < ws.sum) ∧
      (∀ r : Nat, (r : Int) < ws.sum → ∃ i, ∃ hi : i < ws.length,
        firstAbove r (ws.map .int) (.int 0) 0 = .ok (some i) ∧
        (ws.take i).sum ≤ r ∧ r < (ws.take i).sum + ws[i] ∧ 0 < ws[i] ∧
        ∀ j, ∀ hj : j < ws.length, (ws.take j).sum ≤ r → r < (ws.take j).sum + ws[j] → j = i) ∧
      (∀ i, ∀ hi : i < ws.length,
        {r : Nat | (r : Int) < ws.sum ∧ firstAbove r (ws.map .int) (.int 0) 0 = .ok (some i)}.ncard =
          ws[i].toNat) := by
  refine ⟨fun ns s h => weightedIndex_of_neg h, fun ws hnn => ⟨?_, fun hpos => ?_, ?_,
    fun i hi => ncard_rolls_at_index hnn hi⟩⟩
  · intro s s'
    constructor
    · intro h
      rcases weightedIndex_ints_eq_ok hnn h with ⟨hz, -, rfl⟩ | ⟨-, r, j, -, -, hj, -⟩
      · exact ⟨hz, rfl⟩
      · cases hj
    · rintro ⟨hz, rfl⟩
      exact weightedIndex_ints_of_sum_eq_zero hnn hz
  · refine ⟨weightedIndex_ints_of_sum_pos hnn hpos, fun s r s' h => ?_⟩
    have := below_lt (by omega) h
    omega
  · intro r hr
    obtain ⟨i, hi, hrun, hlo, hhi⟩ := firstAbove_ints r ws 0 0 (by omega) (by omega)
    simp only [Nat.zero_add, Int.zero_add] at hrun hlo hhi
    refine ⟨i, hi, hrun, hlo, hhi, by omega, fun j hj hjlo hjhi => ?_⟩
    exact window_unique hnn hj hi ⟨hjlo, hjhi⟩ ⟨hlo, hhi⟩

/-- The law at the weights `[-1, 10]`, which are refused, and at `[0, 2, 0, 3]`, whose zero
weights stand at the start and in the middle. -/
theorem weightedIndex_law_sample :
    (∃ n ∈ [Num.int (-1), .int 10], n.isNeg = true) ∧
    (weightedIndex [.int (-1), .int 10]).run (Source.ofSeed 0) =
      .error (Fault.value ("Negative weight in " ++ numsLiteral [.int (-1), .int 10]))
        (Source.ofSeed 0) ∧
    (∀ w ∈ ([0, 2, 0, 3] : List Int), 0 ≤ w) ∧
    let ws : List Int := [0, 2, 0, 3]
    ((∀ s s', (weightedIndex (ws.map .int)).run s = .ok none s' ↔ ws.sum = 0 ∧ s' = s) ∧
      (0 < ws.sum →
        weightedIndex (ws.map .int) =
          (below ws.sum.toNat >>= fun r => fromExcept (firstAbove r (ws.map .int) (.int 0) 0)) ∧
        ∀ s r s', (below ws.sum.toNat).run s = .ok r s' → (r : Int) < ws.sum) ∧
      (∀ r : Nat, (r : Int) < ws.sum → ∃ i, ∃ hi : i < ws.length,
        firstAbove r (ws.map .int) (.int 0) 0 = .ok (some i) ∧
        (ws.take i).sum ≤ r ∧ r < (ws.take i).sum + ws[i] ∧ 0 < ws[i] ∧
        ∀ j, ∀ hj : j < ws.length, (ws.take j).sum ≤ r → r < (ws.take j).sum + ws[j] → j = i) ∧
      (∀ i, ∀ hi : i < ws.length,
        {r : Nat | (r : Int) < ws.sum ∧ firstAbove r (ws.map .int) (.int 0) 0 = .ok (some i)}.ncard =
          ws[i].toNat)) := by
  have hneg : ∃ n ∈ [Num.int (-1), .int 10], n.isNeg = true := ⟨.int (-1), by simp, by decide⟩
  have hnn : ∀ w ∈ ([0, 2, 0, 3] : List Int), 0 ≤ w := by decide
  exact ⟨hneg, weightedIndex_law.1 _ _ hneg, hnn, weightedIndex_law.2 _ hnn⟩

end Loot.Random
