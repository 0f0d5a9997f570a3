import Loot.Proofs.PoolDraw
import Mathlib.Algebra.BigOperators.Group.Finset.Piecewise
import Mathlib.Algebra.BigOperators.Ring.Finset
import Mathlib.Data.Set.Card

/-!
# The law of choosing an affix id

The admitted pool members, in order, take consecutive windows of the rolls, each as long as its
weight (`windowPick`). Choosing an id draws one roll below the total admitted weight and yields the
id whose window holds it, or nothing without drawing when that total is zero; so each id is chosen
by exactly as many rolls as its admitted weight (`chooseAffixId_law`).
-/

namespace Loot

open Loot.Json Loot.Random

/-! ## Windows -/

/-- The entry whose window holds the roll: the entries take consecutive windows of the rolls, each
as long as its weight, in order, so this is the first entry whose cumulative weight exceeds the
roll. -/
def windowPick {α : Type} : List (α × Nat) → Nat → Option α
  | [], _ => none
  | (x, w) :: rest, r => if r < w then some x else windowPick rest (r - w)

section Windows

variable {α : Type}

/-- A roll past the first window is a roll of the rest, counted from the end of that window. -/
@[simp]
theorem windowPick_cons_add (x : α) (w : Nat) (rest : List (α × Nat)) (r : Nat) :
    windowPick ((x, w) :: rest) (w + r) = windowPick rest r := by
  simp [windowPick]

/-- The entry at an index is picked by the rolls of its window. -/
theorem windowPick_of_window : ∀ {ps : List (α × Nat)} {j r : Nat} (hj : j < ps.length),
    ((ps.map (·.2)).take j).sum ≤ r → r < ((ps.map (·.2)).take j).sum + ps[j].2 →
    windowPick ps r = some ps[j].1
  | (x, w) :: rest, 0, r, _, _, hhi => by
    simp only [List.map_cons, List.take_zero, List.sum_nil, Nat.zero_add,
      List.getElem_cons_zero] at hhi
    simp [windowPick, hhi]
  | (x, w) :: rest, j + 1, r, hj, hlo, hhi => by
    simp only [List.map_cons, List.take_succ_cons, List.sum_cons, List.getElem_cons_succ] at hlo hhi
    obtain ⟨r', rfl⟩ : ∃ r', r = w + r' := ⟨r - w, by omega⟩
    rw [windowPick_cons_add, List.getElem_cons_succ]
    exact windowPick_of_window (by simpa using hj) (by omega) (by omega)

/-- Rolls from the total weight on pick nothing. -/
theorem windowPick_of_sum_le : ∀ {ps : List (α × Nat)} {r : Nat},
    (ps.map (·.2)).sum ≤ r → windowPick ps r = none
  | [], _, _ => rfl
  | (x, w) :: rest, r, h => by
    simp only [List.map_cons, List.sum_cons] at h
    obtain ⟨r', rfl⟩ : ∃ r', r = w + r' := ⟨r - w, by omega⟩
    rw [windowPick_cons_add]
    exact windowPick_of_sum_le (by omega)

/-- Every roll below the total weight picks an entry. -/
theorem windowPick_of_lt_sum : ∀ {ps : List (α × Nat)} {r : Nat},
    r < (ps.map (·.2)).sum → ∃ x, windowPick ps r = some x
  | [], _, h => absurd h (Nat.not_lt_zero _)
  | (x, w) :: rest, r, h => by
    simp only [List.map_cons, List.sum_cons] at h
    by_cases hr : r < w
    · exact ⟨x, by simp [windowPick, hr]⟩
    · obtain ⟨r', rfl⟩ : ∃ r', r = w + r' := ⟨r - w, by omega⟩
      rw [windowPick_cons_add]
      exact windowPick_of_lt_sum (by omega)

/-- A picked entry is an entry of positive weight. -/
theorem windowPick_mem : ∀ {ps : List (α × Nat)} {r : Nat} {x : α},
    windowPick ps r = some x → ∃ p ∈ ps, p.1 = x ∧ 0 < p.2
  | [], _, _, h => by cases h
  | (y, w) :: rest, r, x, h => by
    unfold windowPick at h
    split at h
    · cases h
      exact ⟨(y, w), List.mem_cons_self, rfl, by omega⟩
    · obtain ⟨p, hp, hpx, hpos⟩ := windowPick_mem h
      exact ⟨p, List.mem_cons_of_mem _ hp, hpx, hpos⟩

/-- Of the rolls below the total weight, those that pick `X` are as many as the summed weight of
the entries of `X`: the first window gives its whole length to its entry, and the later rolls are
the rolls of the rest. -/
theorem card_windowPick [DecidableEq α] (X : α) : ∀ ps : List (α × Nat),
    ((Finset.range (ps.map (·.2)).sum).filter fun r => windowPick ps r = some X).card =
      ((ps.filter (·.1 = X)).map (·.2)).sum
  | [] => rfl
  | (x, w) :: rest => by
    rw [Finset.card_filter, List.map_cons, List.sum_cons, Finset.sum_range_add]
    have hwindow : ∀ r ∈ Finset.range w,
        (if windowPick ((x, w) :: rest) r = some X then 1 else 0) = if x = X then 1 else 0 := by
      intro r hr
      simp [windowPick, Finset.mem_range.1 hr]
    have hrest : ∑ r ∈ Finset.range (rest.map (·.2)).sum,
        (if windowPick ((x, w) :: rest) (w + r) = some X then 1 else 0) =
        ((rest.filter (·.1 = X)).map (·.2)).sum := by
      simp only [windowPick_cons_add]
      rw [← Finset.card_filter]
      exact card_windowPick X rest
    rw [Finset.sum_congr rfl hwindow, hrest]
    by_cases hx : x = X <;> simp [hx]

/-- The rolls below the total weight that pick `X` are as many as the summed weight of the entries
of `X`. -/
theorem ncard_windowPick [DecidableEq α] (ps : List (α × Nat)) (X : α) :
    {r : Nat | r < (ps.map (·.2)).sum ∧ windowPick ps r = some X}.ncard =
      ((ps.filter (·.1 = X)).map (·.2)).sum := by
  rw [← card_windowPick X ps, ← Set.ncard_coe_finset, Finset.coe_filter]
  simp only [Finset.mem_range]

end Windows

/-! ## The admitted members -/

/-- Criteria admit a pool member when they admit the current id and placement of its affix. -/
def Catalog.Admits (c : Catalog) (crit : AffixCriteria) (m : Ref .affix × Value) : Prop :=
  crit.admits (c.affix m.1).id (c.affix m.1).placement = .ok true

instance (c : Catalog) (crit : AffixCriteria) : DecidablePred (c.Admits crit) := fun m =>
  decidable_of_iff ((crit.admits (c.affix m.1).id (c.affix m.1).placement).toOption = some true) (by
    unfold Catalog.Admits
    cases crit.admits (c.affix m.1).id (c.affix m.1).placement <;> simp [Except.toOption])

/-- The criteria can be asked about every member. Asking fails only for an id that cannot be a set
member while an id set is given. -/
def Catalog.AdmissionDefined (c : Catalog) (crit : AffixCriteria)
    (ms : List (Ref .affix × Value)) : Prop :=
  ∀ m ∈ ms, ∃ b, crit.admits (c.affix m.1).id (c.affix m.1).placement = .ok b

/-- The admitted members of a list weighed by the integers `ws`, in member order, as the current
ids of their affixes and their weights: the windows a roll falls in. -/
def Catalog.admittedWeights (c : Catalog) (crit : AffixCriteria) (ms : List (Ref .affix × Value))
    (ws : List Int) : List (Value × Nat) :=
  ((ms.zip ws).filter fun p => c.Admits crit p.1).map fun p => ((c.affix p.1.1).id, p.2.toNat)

variable {c : Catalog} {crit : AffixCriteria} {ms : List (Ref .affix × Value)} {ws : List Int}
  {s s' : Source}

/-- The candidates are found exactly when the criteria can be asked about every member, and they
are then the admitted members, in member order, as current ids and weights. -/
theorem admitted_eq_ok_iff {cands : List (Value × Value)} :
    admitted c ms crit = .ok cands ↔ c.AdmissionDefined crit ms ∧
      cands = (ms.filter (c.Admits crit)).map fun m => ((c.affix m.1).id, m.2) := by
  induction ms generalizing cands with
  | nil =>
    simp only [admitted, List.filterMapM_nil, List.filter_nil, List.map_nil, except_pure_eq_ok]
    exact ⟨fun h => ⟨fun _ hm => absurd hm List.not_mem_nil, h.symm⟩, fun h => h.2.symm⟩
  | cons m ms ih =>
    rw [admitted_cons_eq_ok]
    constructor
    · rintro ⟨ok, rest, hok, hrest, rfl⟩
      obtain ⟨hdef, rfl⟩ := ih.1 hrest
      refine ⟨fun m' hm' => ?_, ?_⟩
      · rcases List.mem_cons.1 hm' with rfl | hm'
        · exact ⟨ok, hok⟩
        · exact hdef m' hm'
      · cases ok <;> simp [Catalog.Admits, hok]
    · rintro ⟨hdef, rfl⟩
      obtain ⟨b, hb⟩ := hdef m List.mem_cons_self
      refine ⟨b, _, hb, ih.2 ⟨fun m' hm' => hdef m' (List.mem_cons_of_mem m hm'), rfl⟩, ?_⟩
      cases b <;> simp [Catalog.Admits, hb]

/-- The admitted members carry the ids of the windows, and their weights stand for the windows'
lengths. -/
theorem admitted_windows (hws : IntWeights (ms.map (·.2)) ws) (hnn : ∀ w ∈ ws, 0 ≤ w) :
    ((ms.filter (c.Admits crit)).map fun m => (c.affix m.1).id) =
        (c.admittedWeights crit ms ws).map (·.1) ∧
      IntWeights ((ms.filter (c.Admits crit)).map (·.2))
        ((c.admittedWeights crit ms ws).map fun p => (p.2 : Int)) := by
  induction ms generalizing ws with
  | nil =>
    rw [intWeights_nil_iff.1 hws]
    exact ⟨rfl, rfl⟩
  | cons m ms ih =>
    obtain ⟨w, ws, rfl, hw, hws⟩ := intWeights_cons_iff.1 hws
    have hw0 : 0 ≤ w := hnn w List.mem_cons_self
    obtain ⟨hids, hweights⟩ := ih hws fun x hx => hnn x (List.mem_cons_of_mem w hx)
    by_cases hadm : c.Admits crit m
    · have hcast : ((w.toNat : Nat) : Int) = w := Int.toNat_of_nonneg hw0
      refine ⟨?_, ?_⟩
      · simpa [Catalog.admittedWeights, List.filter_cons, hadm] using hids
      · simp only [Catalog.admittedWeights, List.zip_cons_cons, List.filter_cons, hadm,
          decide_true, if_true, List.map_cons, hcast]
        exact intWeights_cons_iff.2 ⟨w, _, rfl, hw, hweights⟩
    · refine ⟨?_, ?_⟩
      · simpa [Catalog.admittedWeights, List.filter_cons, hadm] using hids
      · simpa [Catalog.admittedWeights, List.filter_cons, hadm] using hweights

/-! ## Choosing an id -/

/-- When the criteria cannot be asked about every member, choosing an id fails before anything is
drawn. -/
theorem chooseAffixId_of_not_defined (h : ¬ c.AdmissionDefined crit ms) :
    ∃ e, (chooseAffixId c ms crit).run s = .error e s := by
  cases hcands : admitted c ms crit with
  | error e =>
    refine ⟨e, ?_⟩
    simp only [chooseAffixId, EStateM.run_bind, hcands, fromExcept]
    rfl
  | ok cands => exact absurd (admitted_eq_ok_iff.1 hcands).1 h

/-- The sums of the first windows, as integers. -/
theorem sum_take_map_natCast (ns : List Nat) (j : Nat) :
    ((ns.map (Nat.cast : Nat → Int)).take j).sum = ((ns.take j).sum : Int) := by
  rw [← List.map_take, Nat.cast_list_sum]

/-- The lengths of windows, as integers, are not negative. -/
theorem natCast_nonneg_of_mem {ns : List Nat} : ∀ w ∈ ns.map (Nat.cast : Nat → Int), 0 ≤ w := by
  simp only [List.mem_map]
  rintro _ ⟨n, -, rfl⟩
  exact Int.natCast_nonneg n

/-- The scan of the running sums of the windows' lengths, read through the ids, picks the window
holding the roll: below the total the scan stops in that window, and past it the scan runs out and
no window holds the roll. -/
theorem firstAbove_windowPick {α : Type} (ps : List (α × Nat)) (r : Nat) :
    ∃ o, firstAbove r (((ps.map (·.2)).map (Nat.cast : Nat → Int)).map .int) (.int 0) 0 = .ok o ∧
      (o.bind fun i => (ps.map (·.1))[i]?) = windowPick ps r := by
  have hnn : ∀ w ∈ (ps.map (·.2)).map (Nat.cast : Nat → Int), 0 ≤ w := natCast_nonneg_of_mem
  have hsum : ((ps.map (·.2)).map (Nat.cast : Nat → Int)).sum = (((ps.map (·.2)).sum : Nat) : Int) :=
    (Nat.cast_list_sum _).symm
  by_cases hr : r < (ps.map (·.2)).sum
  · obtain ⟨j, hj, hrun, hlo, hhi⟩ := firstAbove_ints r ((ps.map (·.2)).map Nat.cast) 0 0
      (by omega) (by omega)
    rw [Nat.zero_add] at hrun
    rw [Int.zero_add, sum_take_map_natCast] at hlo hhi
    rw [List.getElem_map, List.getElem_map] at hhi
    have hj' : j < ps.length := by simpa using hj
    refine ⟨some j, hrun, ?_⟩
    rw [windowPick_of_window hj' (by exact_mod_cast hlo) (by exact_mod_cast hhi)]
    simp [hj']
  · refine ⟨none, firstAbove_ints_of_sum_le r _ 0 0 hnn (by omega), ?_⟩
    exact (windowPick_of_sum_le (by omega)).symm

section Defined

variable (hdef : c.AdmissionDefined crit ms) (hws : IntWeights (ms.map (·.2)) ws)
  (hnn : ∀ w ∈ ws, 0 ≤ w)
include hdef hws hnn

/-- Choosing an id draws an index by the windows' lengths and answers the id at that index. -/
theorem chooseAffixId_eq_draw :
    chooseAffixId c ms crit =
      weightedIndex ((((c.admittedWeights crit ms ws).map (·.2)).map (Nat.cast : Nat → Int)).map
          .int) >>= fun o => pure (o.bind fun i => ((c.admittedWeights crit ms ws).map (·.1))[i]?) := by
  obtain ⟨hids, hweights⟩ := @admitted_windows c crit ms ws hws hnn
  have hcands := admitted_eq_ok_iff.2 ⟨hdef, rfl⟩
  have hcast : ((c.admittedWeights crit ms ws).map fun p => (p.2 : Int)) =
      ((c.admittedWeights crit ms ws).map (·.2)).map (Nat.cast : Nat → Int) := by
    rw [List.map_map]
    rfl
  rw [hcast] at hweights
  have hnn' : ∀ w ∈ ((c.admittedWeights crit ms ws).map (·.2)).map (Nat.cast : Nat → Int), 0 ≤ w :=
    natCast_nonneg_of_mem
  have hidx := weightedIndexOf_ints hweights hnn'
  have hmap : (((ms.filter (c.Admits crit)).map fun m => ((c.affix m.1).id, m.2)).map (·.2)) =
      (ms.filter (c.Admits crit)).map (·.2) := by
    simp
  unfold chooseAffixId
  rw [hcands]
  simp only [fromExcept, pure_bind]
  rw [hmap, hidx]
  refine bind_congr fun o => ?_
  cases o with
  | none => rfl
  | some i =>
    simp only [Option.bind_some, ← hids, List.getElem?_map, Option.map_map]
    rfl

/-- With the admitted weights summing to zero, choosing an id yields nothing and draws nothing. -/
theorem chooseAffixId_of_sum_eq_zero
    (hz : ((c.admittedWeights crit ms ws).map (·.2)).sum = 0) :
    (chooseAffixId c ms crit).run s = .ok none s := by
  have hnn' : ∀ w ∈ ((c.admittedWeights crit ms ws).map (·.2)).map (Nat.cast : Nat → Int), 0 ≤ w :=
    natCast_nonneg_of_mem
  have hz' : (((c.admittedWeights crit ms ws).map (·.2)).map (Nat.cast : Nat → Int)).sum = 0 := by
    rw [← Nat.cast_list_sum, hz, Nat.cast_zero]
  rw [chooseAffixId_eq_draw hdef hws hnn, EStateM.run_bind, weightedIndex_ints_of_sum_eq_zero hnn' hz']
  rfl

/-- With a positive sum of the admitted weights, choosing an id is one roll below the sum and the
id of the window holding it. -/
theorem chooseAffixId_of_sum_pos (hpos : 0 < ((c.admittedWeights crit ms ws).map (·.2)).sum) :
    chooseAffixId c ms crit =
      below ((c.admittedWeights crit ms ws).map (·.2)).sum >>= fun r =>
        pure (windowPick (c.admittedWeights crit ms ws) r) := by
  have hnn' : ∀ w ∈ ((c.admittedWeights crit ms ws).map (·.2)).map (Nat.cast : Nat → Int), 0 ≤ w :=
    natCast_nonneg_of_mem
  have hsum : (((c.admittedWeights crit ms ws).map (·.2)).map (Nat.cast : Nat → Int)).sum =
      ((((c.admittedWeights crit ms ws).map (·.2)).sum : Nat) : Int) := (Nat.cast_list_sum _).symm
  rw [chooseAffixId_eq_draw hdef hws hnn, weightedIndex_ints_of_sum_pos hnn' (by omega), hsum,
    Int.toNat_natCast, bind_assoc]
  refine bind_congr fun r => ?_
  obtain ⟨o, ho, hpick⟩ := firstAbove_windowPick (c.admittedWeights crit ms ws) r
  rw [ho, ← hpick]
  rfl

/-- Choosing an id yields nothing only when the admitted weights sum to zero, and then it draws
nothing. -/
theorem chooseAffixId_eq_none_iff :
    (chooseAffixId c ms crit).run s = .ok none s' ↔
      ((c.admittedWeights crit ms ws).map (·.2)).sum = 0 ∧ s' = s := by
  constructor
  · intro h
    rcases Nat.eq_zero_or_pos ((c.admittedWeights crit ms ws).map (·.2)).sum with hz | hpos
    · rw [chooseAffixId_of_sum_eq_zero hdef hws hnn hz] at h
      cases h
      exact ⟨hz, rfl⟩
    · rw [chooseAffixId_of_sum_pos hdef hws hnn hpos] at h
      obtain ⟨r, s₁, hr, hrest⟩ := run_bind_eq_ok.1 h
      obtain ⟨hnone, -⟩ := run_pure_eq_ok.1 hrest
      -- a roll below the sum picks the member of the window holding it
      obtain ⟨X, hX⟩ := windowPick_of_lt_sum (below_lt hpos hr)
      rw [hX] at hnone
      cases hnone
  · rintro ⟨hz, rfl⟩
    exact chooseAffixId_of_sum_eq_zero hdef hws hnn hz

end Defined

/-- No weight that stands for an integer is a double. -/
theorem IntWeights.not_float {vs : List Value} (hws : IntWeights vs ws) :
    ∀ v ∈ vs, ∀ x, v ≠ .float x := by
  rintro v hv x rfl
  have hmem := List.mem_map_of_mem (f := Value.toNum?) hv
  rw [hws] at hmem
  obtain ⟨w, -, hw⟩ := List.mem_map.1 hmem
  cases hw

/-- When the registry resolves the id of every admitted member to that member's affix, an affix
rolled from the members is the affix of a drawable member, and so meets the criteria's conditions
on ids and placement. -/
theorem rollFromPool_affix_drawable (hws : IntWeights (ms.map (·.2)) ws)
    (hreg : ∀ m ∈ ms, c.Admits crit m → c.require .affix (c.affix m.1).id = .ok m.1.slot)
    {a : RolledAffix} (h : (rollFromPool c ms crit).run s = .ok (some a) s') :
    ∃ m ∈ ms, c.Drawable crit m ∧ a.affix = m.1 ∧
      (∀ ids, crit.allowed = some ids → (c.affix a.affix).id.memberOf ids = .ok true) ∧
      (∀ ids, crit.disallowed = some ids → (c.affix a.affix).id.memberOf ids = .ok false) ∧
      (∀ q, crit.placement = some q → q = (c.affix a.affix).placement) := by
  have hw : ∀ m ∈ ms, ∀ x, m.2 ≠ .float x := fun m hm =>
    IntWeights.not_float hws m.2 (List.mem_map_of_mem hm)
  obtain ⟨m, hm, hdraw, hslot⟩ := rollFromPool_eq_some hw h
  -- the registry resolves the member's id both to the affix rolled and to the member's affix
  have haffix : a.affix = m.1 := by
    rw [hreg m hm hdraw.1] at hslot
    exact congrArg Ref.mk (Except.ok.inj hslot).symm
  obtain ⟨hallowed, hdisallowed, hplacement⟩ := AffixCriteria.admits_eq_ok_true.1 hdraw.1
  rw [haffix]
  exact ⟨m, hm, hdraw, rfl, hallowed, hdisallowed, hplacement⟩

/-! ## The law -/

open scoped Classical in
/-- The law of choosing an affix id from pool members weighed by the non-negative integers `ws`,
under any criteria and from any source. Writing `T` for the summed weight of the admitted members:

* when the criteria cannot be asked about some member, the choice fails before drawing;
* otherwise it yields nothing, without drawing, exactly when `T = 0`, and when `T > 0` it is one
  roll below `T` and the id of the admitted member whose window holds the roll, the member whose
  cumulative admitted weight, in member order, first exceeds it;
* of the `T` rolls, those that yield an id `X` are as many as the summed weight of the admitted
  members of id `X`, and only the id of an admitted member of positive weight is ever chosen;
* when the registry resolves every admitted member's id to that member's affix, an affix rolled
  from the pool is the affix of an admitted member of positive weight: its id is in the allowed
  set and not in the disallowed set, and its placement is the one asked for, when these are set. -/
theorem chooseAffixId_law (c : Catalog) (P : PoolDef) (crit : AffixCriteria) (ws : List Int)
    (hws : IntWeights (P.members.map (·.2)) ws) (hnn : ∀ w ∈ ws, 0 ≤ w) :
    (¬ c.AdmissionDefined crit P.members →
      ∀ s, ∃ e, (chooseAffixId c P.members crit).run s = .error e s) ∧
    (∀ s s', (chooseAffixId c P.members crit).run s = .ok none s' ↔
      c.AdmissionDefined crit P.members ∧
        ((c.admittedWeights crit P.members ws).map (·.2)).sum = 0 ∧ s' = s) ∧
    (c.AdmissionDefined crit P.members → 0 < ((c.admittedWeights crit P.members ws).map (·.2)).sum →
      chooseAffixId c P.members crit =
        below ((c.admittedWeights crit P.members ws).map (·.2)).sum >>= fun r =>
          pure (windowPick (c.admittedWeights crit P.members ws) r)) ∧
    (∀ j r, ∀ hj : j < (c.admittedWeights crit P.members ws).length,
      (((c.admittedWeights crit P.members ws).map (·.2)).take j).sum ≤ r →
      r < (((c.admittedWeights crit P.members ws).map (·.2)).take j).sum +
        (c.admittedWeights crit P.members ws)[j].2 →
      windowPick (c.admittedWeights crit P.members ws) r =
        some (c.admittedWeights crit P.members ws)[j].1) ∧
    (∀ X, {r : Nat | r < ((c.admittedWeights crit P.members ws).map (·.2)).sum ∧
        windowPick (c.admittedWeights crit P.members ws) r = some X}.ncard =
      (((c.admittedWeights crit P.members ws).filter (·.1 = X)).map (·.2)).sum) ∧
    (∀ s X s', (chooseAffixId c P.members crit).run s = .ok (some X) s' →
      ∃ m ∈ P.members, c.Drawable crit m ∧ X = (c.affix m.1).id) ∧
    ((∀ m ∈ P.members, c.Admits crit m → c.require .affix (c.affix m.1).id = .ok m.1.slot) →
      ∀ s a s', (rollFromPool c P.members crit).run s = .ok (some a) s' →
        ∃ m ∈ P.members, c.Drawable crit m ∧ a.affix = m.1 ∧
          (∀ ids, crit.allowed = some ids → (c.affix a.affix).id.memberOf ids = .ok true) ∧
          (∀ ids, crit.disallowed = some ids → (c.affix a.affix).id.memberOf ids = .ok false) ∧
          (∀ q, crit.placement = some q → q = (c.affix a.affix).placement)) := by
  have hw : ∀ m ∈ P.members, ∀ x, m.2 ≠ .float x := fun m hm =>
    IntWeights.not_float hws m.2 (List.mem_map_of_mem hm)
  refine ⟨fun hdef s => chooseAffixId_of_not_defined hdef, fun s s' => ?_,
    fun hdef hpos => chooseAffixId_of_sum_pos hdef hws hnn hpos,
    fun j r hj hlo hhi => windowPick_of_window hj hlo hhi, ncard_windowPick _,
    fun s X s' h => chooseAffixId_eq_some hw h,
    fun hreg s a s' h => rollFromPool_affix_drawable hws hreg h⟩
  by_cases hdef : c.AdmissionDefined crit P.members
  · rw [chooseAffixId_eq_none_iff hdef hws hnn]
    exact ⟨fun h => ⟨hdef, h⟩, fun h => h.2⟩
  · obtain ⟨e, he⟩ := chooseAffixId_of_not_defined (s := s) hdef
    rw [he]
    exact ⟨fun h => (by cases h), fun h => absurd h.1 hdef⟩

/-- An affix of one tier without stats, with the given id and placement. -/
def choiceAffix (id : Int) (p : Placement) : AffixDef where
  id := .int id
  placement := p
  name := .str (Text.Chars.ofString "")
  tiers := ⟨[{ number := 1, stats := [] }]⟩

/-- A pool holding a prefix twice, with weights three and two, and a suffix between them with
weight five. -/
def choicePool : PoolDef where
  id := .int 1
  name := .str (Text.Chars.ofString "")
  members := [(⟨0⟩, .int 3), (⟨1⟩, .int 5), (⟨0⟩, .int 2)]

/-- The prefix (id 1), the suffix (id 2) and the pool, each registered under its id. -/
def choiceCatalog : Catalog where
  affixes := #[choiceAffix 1 .before, choiceAffix 2 .after]
  pools := #[choicePool]
  affixIds := ⟨[(1, 0), (2, 1)]⟩
  poolIds := ⟨[(1, 0)]⟩

open scoped Classical in
/-- The law holds of the sample pool under criteria asking for prefixes, which exclude the suffix
of weight five and admit the prefix twice. -/
theorem chooseAffixId_law_sample :
    IntWeights (choicePool.members.map (·.2)) [3, 5, 2] ∧ (∀ w ∈ ([3, 5, 2] : List Int), 0 ≤ w) ∧
    let c := choiceCatalog
    let P := choicePool
    let crit : AffixCriteria := { placement := some .before }
    let ws : List Int := [3, 5, 2]
    ((¬ c.AdmissionDefined crit P.members →
      ∀ s, ∃ e, (chooseAffixId c P.members crit).run s = .error e s) ∧
    (∀ s s', (chooseAffixId c P.members crit).run s = .ok none s' ↔
      c.AdmissionDefined crit P.members ∧
        ((c.admittedWeights crit P.members ws).map (·.2)).sum = 0 ∧ s' = s) ∧
    (c.AdmissionDefined crit P.members → 0 < ((c.admittedWeights crit P.members ws).map (·.2)).sum →
      chooseAffixId c P.members crit =
        below ((c.admittedWeights crit P.members ws).map (·.2)).sum >>= fun r =>
          pure (windowPick (c.admittedWeights crit P.members ws) r)) ∧
    (∀ j r, ∀ hj : j < (c.admittedWeights crit P.members ws).length,
      (((c.admittedWeights crit P.members ws).map (·.2)).take j).sum ≤ r →
      r < (((c.admittedWeights crit P.members ws).map (·.2)).take j).sum +
        (c.admittedWeights crit P.members ws)[j].2 →
      windowPick (c.admittedWeights crit P.members ws) r =
        some (c.admittedWeights crit P.members ws)[j].1) ∧
    (∀ X, {r : Nat | r < ((c.admittedWeights crit P.members ws).map (·.2)).sum ∧
        windowPick (c.admittedWeights crit P.members ws) r = some X}.ncard =
      (((c.admittedWeights crit P.members ws).filter (·.1 = X)).map (·.2)).sum) ∧
    (∀ s X s', (chooseAffixId c P.members crit).run s = .ok (some X) s' →
      ∃ m ∈ P.members, c.Drawable crit m ∧ X = (c.affix m.1).id) ∧
    ((∀ m ∈ P.members, c.Admits crit m → c.require .affix (c.affix m.1).id = .ok m.1.slot) →
      ∀ s a s', (rollFromPool c P.members crit).run s = .ok (some a) s' →
        ∃ m ∈ P.members, c.Drawable crit m ∧ a.affix = m.1 ∧
          (∀ ids, crit.allowed = some ids → (c.affix a.affix).id.memberOf ids = .ok true) ∧
          (∀ ids, crit.disallowed = some ids → (c.affix a.affix).id.memberOf ids = .ok false) ∧
          (∀ q, crit.placement = some q → q = (c.affix a.affix).placement))) := by
  have hws : IntWeights (choicePool.members.map (·.2)) [3, 5, 2] := rfl
  have hnn : ∀ w ∈ ([3, 5, 2] : List Int), 0 ≤ w := by decide
  exact ⟨hws, hnn, chooseAffixId_law choiceCatalog choicePool _ _ hws hnn⟩

end Loot
