import Loot.Random.Source

/-!
# Successful draws

A lookup that succeeds ran each of its steps successfully, and so does a draw that succeeds, each
of its steps starting from the source the step before it left. The lemmas here take a successful
run apart along the way a draw is built (`bind`, `pure`, lifted lookups), so that later proofs read
a draw's outcome off its steps without unfolding the source.

The two primitive choices are then described by their results: `below n` lands below `n`, and
`pick` chooses an element of a non-empty list and nothing, without drawing, from an empty one.
On a script, the bound on the tries of `below` never decides a draw (`below_script_stable`).
-/

namespace Loot

variable {α β ε : Type}

/-! ## Lookups that succeed -/

@[simp]
theorem except_ok_bind (a : α) (f : α → Except ε β) : (Except.ok a >>= f) = f a := rfl

@[simp]
theorem except_error_bind (e : ε) (f : α → Except ε β) :
    (Except.error e >>= f) = .error e := rfl

@[simp]
theorem except_pure_eq_ok {a b : α} : (pure a : Except ε α) = .ok b ↔ a = b := by
  constructor
  · intro h
    cases h
    rfl
  · rintro rfl
    rfl

/-- A lookup `x >>= f` that succeeds ran `x` successfully and then `f` on its result. -/
theorem except_bind_eq_ok {x : Except ε α} {f : α → Except ε β} {b : β} :
    (x >>= f) = .ok b ↔ ∃ a, x = .ok a ∧ f a = .ok b := by
  cases x with
  | error e => simp
  | ok a => simp

/-- Looking up each element of a non-empty list succeeds when the first lookup does and then the
lookups of the rest. -/
theorem mapM_cons_eq_ok {f : α → Except Fault β} {x : α} {xs : List α} {ys : List β} :
    (x :: xs).mapM f = .ok ys ↔ ∃ y ys', f x = .ok y ∧ xs.mapM f = .ok ys' ∧ ys = y :: ys' := by
  rw [List.mapM_cons]
  cases f x with
  | error e => simp
  | ok y =>
    cases hxs : xs.mapM f with
    | error e => simp [Functor.map, Except.map]
    | ok ys' => simp [Functor.map, Except.map, eq_comm]

/-- Each result of a successful lookup of a list is the result of looking up one element. -/
theorem exists_of_mapM_eq_ok {f : α → Except Fault β} :
    ∀ {xs : List α} {ys : List β}, xs.mapM f = .ok ys → ∀ y ∈ ys, ∃ x ∈ xs, f x = .ok y
  | [], ys, h => by
    cases h
    simp
  | x :: xs, ys, h => by
    obtain ⟨y, ys', hy, hys, rfl⟩ := mapM_cons_eq_ok.1 h
    intro z hz
    rcases List.mem_cons.1 hz with rfl | hz
    · exact ⟨x, List.mem_cons_self, hy⟩
    · obtain ⟨x', hx', hfx⟩ := exists_of_mapM_eq_ok hys z hz
      exact ⟨x', List.mem_cons_of_mem x hx', hfx⟩

/-- What each successful step of a fold keeps holds after the fold. -/
theorem foldlM_inv {f : β → α → Except Fault β} (P : β → Prop) :
    ∀ (xs : List α) {b b' : β}, (∀ b, ∀ x ∈ xs, ∀ b', P b → f b x = .ok b' → P b') → P b →
      xs.foldlM f b = .ok b' → P b'
  | [], b, b', _, hb, h => by
    cases h
    exact hb
  | x :: xs, b, b', hstep, hb, h => by
    rw [List.foldlM_cons] at h
    obtain ⟨b₁, hx, hrest⟩ := except_bind_eq_ok.1 h
    exact foldlM_inv P xs (fun b y hy b' => hstep b y (List.mem_cons_of_mem x hy) b')
      (hstep b x List.mem_cons_self b₁ hb hx) hrest

end Loot

namespace Loot.Random

open Loot.Json

variable {α β : Type} {s s' : Source}

/-! ## Taking a run apart -/

/-- A run of `x >>= f` that succeeds ran `x` successfully and then `f` on its result. -/
theorem run_bind_eq_ok {x : Draw α} {f : α → Draw β} {b : β} :
    (x >>= f).run s = .ok b s' ↔ ∃ a s₁, x.run s = .ok a s₁ ∧ (f a).run s₁ = .ok b s' := by
  rw [EStateM.run_bind]
  constructor
  · intro h
    split at h
    · exact ⟨_, _, ‹_›, h⟩
    · cases h
  · rintro ⟨a, s₁, hx, hf⟩
    rw [hx]
    exact hf

@[simp]
theorem run_pure_eq_ok {a b : α} : (pure a : Draw α).run s = .ok b s' ↔ a = b ∧ s = s' := by
  constructor
  · intro h
    cases h
    exact ⟨rfl, rfl⟩
  · rintro ⟨rfl, rfl⟩
    rfl

/-- A run of `f <$> x` that succeeds ran `x` successfully, with the same source after it. -/
theorem run_map_eq_ok {x : Draw α} {f : α → β} {b : β} :
    (f <$> x).run s = .ok b s' ↔ ∃ a, x.run s = .ok a s' ∧ f a = b := by
  simp only [Functor.map, EStateM.run, EStateM.map]
  cases x s with
  | ok a s₁ =>
    constructor
    · intro h
      cases h
      exact ⟨a, rfl, rfl⟩
    · rintro ⟨a, h, rfl⟩
      cases h
      rfl
  | error e s₁ => simp

@[simp]
theorem run_throw_ne_ok (e : Fault) {b : α} : (throw e : Draw α).run s ≠ .ok b s' := by
  intro h
  cases h

/-- A lifted computation draws nothing: it succeeds exactly when the computation does. -/
@[simp]
theorem run_fromExcept_eq_ok {x : Except Fault α} {a : α} :
    (fromExcept x).run s = .ok a s' ↔ x = .ok a ∧ s = s' := by
  cases x with
  | error e => simp [fromExcept]
  | ok b =>
    simp only [fromExcept, run_pure_eq_ok]
    constructor
    · rintro ⟨rfl, rfl⟩
      exact ⟨rfl, rfl⟩
    · rintro ⟨h, rfl⟩
      cases h
      exact ⟨rfl, rfl⟩

/-- A lifted lookup that is known to succeed runs to its result. -/
theorem eq_of_run_fromExcept {x : Except Fault α} {a b : α} (hx : x = .ok a)
    (h : (fromExcept x).run s = .ok b s') : b = a := by
  obtain ⟨hb, -⟩ := run_fromExcept_eq_ok.1 h
  rw [hx] at hb
  exact (Except.ok.inj hb).symm

/-! ## The primitive choices -/

/-- Every try of the rejection loop is below `n`: a try is kept only when it is, and the last one
is taken modulo `n`. -/
theorem belowTries_lt {n k : Nat} (hn : 0 < n) :
    ∀ fuel {s s' : Source} {r : Nat}, (belowTries n k fuel).run s = .ok r s' → r < n := by
  intro fuel
  induction fuel with
  | zero =>
    intro s s' r h
    obtain ⟨x, s₁, -, hr⟩ := run_bind_eq_ok.1 h
    obtain ⟨rfl, -⟩ := run_pure_eq_ok.1 hr
    exact Nat.mod_lt x hn
  | succ fuel ih =>
    intro s s' r h
    obtain ⟨x, s₁, -, hr⟩ := run_bind_eq_ok.1 h
    by_cases hx : x < n
    · simp only [hx, if_true, run_pure_eq_ok] at hr
      rw [← hr.1]
      exact hx
    · simp only [hx, if_false] at hr
      exact ih hr

/-- `below n` lands below `n`. -/
theorem below_lt {n r : Nat} (hn : 0 < n) (h : (below n).run s = .ok r s') : r < n := by
  obtain ⟨s₀, s₁, hget, hr⟩ := run_bind_eq_ok.1 h
  cases hget
  exact belowTries_lt hn _ hr

/-- On a script every try takes a value, so once the tries cover the values left, more tries
draw the same: the script runs out before the last try's remainder is taken. -/
theorem belowTries_script_stable {n k : Nat} :
    ∀ (vs : List Value) (used fuel extra : Nat), vs.length ≤ fuel →
      (belowTries n k (fuel + extra)).run (.script vs used) =
        (belowTries n k fuel).run (.script vs used)
  | [], used, fuel, extra, _ => by
    cases fuel <;> cases extra <;> rfl
  | v :: vs, used, fuel + 1, extra, h => by
    have ih : (belowTries n k (fuel + extra)).run (.script vs (used + 1)) =
        (belowTries n k fuel).run (.script vs (used + 1)) :=
      belowTries_script_stable vs (used + 1) fuel extra (by simpa using h)
    rw [Nat.add_right_comm]
    cases v
    case int m =>
      -- the try takes the script's next value, and the rest of the script is left to the others
      change (if (m % (2 ^ k : Int)).toNat < n then pure _ else belowTries n k (fuel + extra)).run
          (.script vs (used + 1)) =
        (if (m % (2 ^ k : Int)).toNat < n then pure _ else belowTries n k fuel).run
          (.script vs (used + 1))
      split
      · rfl
      · exact ih
    all_goals rfl

/-- On a script, `below` draws what the loop without a bound draws: what any number of tries
covering the script draws. -/
theorem below_script_stable (n extra : Nat) (vs : List Value) (used : Nat) :
    (below n).run (.script vs used) =
      (belowTries n (Nat.log2 n + 1) (vs.length + extra)).run (.script vs used) :=
  calc (below n).run (.script vs used)
      = (belowTries n (Nat.log2 n + 1) (vs.length + 1)).run (.script vs used) := rfl
    _ = (belowTries n (Nat.log2 n + 1) vs.length).run (.script vs used) :=
      belowTries_script_stable vs used _ 1 (Nat.le_refl _)
    _ = (belowTries n (Nat.log2 n + 1) (vs.length + extra)).run (.script vs used) :=
      (belowTries_script_stable vs used _ extra (Nat.le_refl _)).symm

/-- `pick` chooses an element of a non-empty list. -/
theorem pick_mem {xs : List α} {o : Option α} (hxs : xs ≠ [])
    (h : (pick xs).run s = .ok o s') : ∃ x ∈ xs, o = some x := by
  have hne : xs.isEmpty = false := by simpa using hxs
  simp only [pick, hne] at h
  obtain ⟨i, s₁, hi, hr⟩ := run_bind_eq_ok.1 h
  obtain ⟨rfl, -⟩ := run_pure_eq_ok.1 hr
  have hlt : i < xs.length := below_lt (List.length_pos_iff.2 hxs) hi
  exact ⟨xs[i], List.getElem_mem hlt, List.getElem?_eq_getElem hlt⟩

/-- `pick` of the empty list is nothing, and draws nothing. -/
theorem pick_nil : (pick ([] : List α)).run s = .ok none s := rfl

end Loot.Random
