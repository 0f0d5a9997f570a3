import Loot.Proofs.TierOrder
import Loot.Proofs.PoolDraw
import Loot.Proofs.StatSums

/-!
# Rolling one affix

The eligible tiers of a roll are the map's tiers, in order, under the optional maximum tier and
item level (`Tier.eligible`). Rolling draws one index below their number and then one unit per stat
of the chosen tier, scaled and rounded; with no eligible tier it draws nothing
(`rollAffix_tier_and_draws`). From a seeded source only a rounding can fail, and one does for a
tier with too many places (`rollAffix_fails_to_round`).
-/

namespace Loot

open Loot.Json Loot.Random

/-! ## Eligible tiers -/

namespace AffixCriteria

/-- A tier bound given as an optional integer: null when unset. -/
def boundValue : Option Int → Value
  | none => .null
  | some n => .int n

/-- The item level a tier's requirement is compared with stands for the level, zero when unset. -/
theorem level_toNum? (l : Option Int) :
    (if (boundValue l).truthy then boundValue l else .int 0).toNum? = some (.int (l.getD 0)) := by
  cases l with
  | none => rfl
  | some n =>
    by_cases hn : n = 0
    · simp [boundValue, Value.truthy, hn, Value.toNum?]
    · simp [boundValue, Value.truthy, hn, Value.toNum?]

end AffixCriteria

/-- Whether a tier may be rolled under a maximum tier and an item level: its number is at most the
maximum tier when one is set, and its level requirement is at most the item level, an absent
requirement and an unset level counting as zero. -/
def Tier.eligible (u l : Option Int) (t : Tier) : Bool :=
  u.all (fun k => decide (t.number ≤ k)) && decide (t.levelReq.getD 0 ≤ l.getD 0)

namespace AffixCriteria

/-- The eligible tiers under bounds that are optional integers are the map's tiers, in order,
that are eligible. -/
theorem eligibleTiers_of_bounds {crit : AffixCriteria} {u l : Option Int}
    (hu : crit.maximumTier = boundValue u) (hl : crit.itemLevel = boundValue l) (m : TierMap) :
    crit.eligibleTiers m = .ok (m.tiers.filter (Tier.eligible u l)) := by
  have hlevel := Value.compareFrom_le_int (level_toNum? l)
  unfold eligibleTiers
  rw [hu, hl]
  simp only [hlevel]
  -- the maximum tier, when one is set, is a first filter
  cases u with
  | none =>
    simp only [boundValue, pure_bind, filterM_ok]
    rfl
  | some k =>
    simp only [boundValue, TierMap.upTo_int m (v := .int k) rfl, except_ok_bind, filterM_ok,
      List.filter_filter]
    congr 2
    funext t
    simp [Tier.eligible, Bool.and_comm]

end AffixCriteria

/-- Rolling an affix reads only the affix's tiers and the criteria's tier bounds: any catalog with
the same definition in the slot, and any criteria with the same bounds, roll it the same way. -/
theorem rollAffix_congr {c c' : Catalog} {r : Ref .affix} {crit crit' : AffixCriteria}
    (hd : c'.affix r = c.affix r) (hmax : crit'.maximumTier = crit.maximumTier)
    (hlevel : crit'.itemLevel = crit.itemLevel) : rollAffix c' r crit' = rollAffix c r crit := by
  have htiers : crit'.eligibleTiers = crit.eligibleTiers := by
    funext m
    unfold AffixCriteria.eligibleTiers
    rw [hmax, hlevel]
  unfold rollAffix
  rw [hd, htiers]

/-! ## Seeded draws

A seeded twister never fails to give bits or a double, and stays a twister. A draw built from it
can then fail only where one of its own steps does. -/

namespace Random

/-- From a seeded source, the draw `d` leaves a seeded source when it succeeds, and fails only as
`Q` allows. -/
def Draw.Seeded {α : Type} (Q : Fault → Prop) (d : Draw α) : Prop :=
  ∀ g, (∀ a s', d.run (.twister g) = .ok a s' → ∃ g', s' = .twister g') ∧
    ∀ e s', d.run (.twister g) = .error e s' → Q e

section Seeded

variable {α β : Type} {Q : Fault → Prop}

theorem Draw.Seeded.pure (a : α) : Draw.Seeded Q (pure a) := fun g =>
  ⟨fun _ _ h => ⟨g, (run_pure_eq_ok.1 h).2.symm⟩, fun _ _ h => nomatch h⟩

theorem Draw.Seeded.throw {e : Fault} (h : Q e) : Draw.Seeded Q (throw e : Draw α) := fun _ =>
  ⟨(fun _ _ he => nomatch he), fun _ _ he => by cases he; exact h⟩

/-- A lookup that is known to succeed draws nothing. -/
theorem Draw.Seeded.fromExcept_ok {x : Except Fault α} {a : α} (hx : x = .ok a) :
    Draw.Seeded Q (fromExcept x) := by
  subst hx
  exact Draw.Seeded.pure a

theorem Draw.Seeded.fromExcept {x : Except Fault α} (h : ∀ e, x = .error e → Q e) :
    Draw.Seeded Q (fromExcept x) := by
  cases x with
  | ok a => exact Draw.Seeded.pure a
  | error e => exact Draw.Seeded.throw (h e rfl)

theorem Draw.Seeded.bind {x : Draw α} {f : α → Draw β} (hx : Draw.Seeded Q x)
    (hf : ∀ a, Draw.Seeded Q (f a)) : Draw.Seeded Q (x >>= f) := by
  intro g
  rw [EStateM.run_bind]
  cases hxs : x.run (.twister g) with
  | ok a s₁ =>
    obtain ⟨g₁, rfl⟩ := (hx g).1 a s₁ hxs
    exact hf a g₁
  | error e s₁ =>
    exact ⟨(fun _ _ h => nomatch h), fun e' _ h => by cases h; exact (hx g).2 e s₁ hxs⟩

theorem Draw.Seeded.map {x : Draw α} {f : α → β} (hx : Draw.Seeded Q x) :
    Draw.Seeded Q (f <$> x) := by
  rw [map_eq_pure_bind]
  exact hx.bind fun a => Draw.Seeded.pure (f a)

theorem Draw.Seeded.mapM {f : α → Draw β} :
    ∀ {xs : List α}, (∀ x ∈ xs, Draw.Seeded Q (f x)) → Draw.Seeded Q (xs.mapM f)
  | [], _ => Draw.Seeded.pure []
  | x :: xs, h => by
    rw [List.mapM_cons]
    exact (h x List.mem_cons_self).bind fun _ =>
      (Draw.Seeded.mapM fun x' hx' => h x' (List.mem_cons_of_mem x hx')).bind fun _ =>
        Draw.Seeded.pure _

theorem seeded_bits (k : Nat) : Draw.Seeded Q (bits k) := fun _ =>
  ⟨fun _ _ h => by cases h; exact ⟨_, rfl⟩, fun _ _ h => nomatch h⟩

theorem seeded_unit : Draw.Seeded Q unit := fun _ =>
  ⟨fun _ _ h => by cases h; exact ⟨_, rfl⟩, fun _ _ h => nomatch h⟩

/-- Each try draws bits, and the last one takes a remainder: no try can fail. -/
theorem seeded_belowTries (n k fuel : Nat) : Draw.Seeded Q (belowTries n k fuel) := by
  induction fuel with
  | zero => exact (seeded_bits k).bind fun _ => Draw.Seeded.pure _
  | succ fuel ih =>
    refine (seeded_bits k).bind fun r => ?_
    split
    · exact Draw.Seeded.pure r
    · exact ih

/-- The number of tries depends on the source, but every number of them is seeded. -/
theorem seeded_below (n : Nat) : Draw.Seeded Q (below n) := fun g =>
  seeded_belowTries n _ _ g

theorem seeded_guid : Draw.Seeded Q guid := (seeded_bits 128).map

end Seeded

end Random

/-! ## The draws of a roll -/

/-- The failures of rounding a drawn double to a whole number of places. -/
def Fault.IsRounding (e : Fault) : Prop :=
  ∃ x places, Num.roundTo (.float x) (.int places) = .error e

/-- Drawing the stats of a tier draws one double from the unit interval per stat range, in order,
scales it into the range and rounds it; a rounding that fails ends the draw. -/
theorem rollStats_eq (places : Int) (ranges : List StatRange) :
    rollStats places ranges = ranges.mapM (fun rg => do
      let x ← unit
      fromExcept ((Num.roundTo (.float (rg.lower + (rg.upper - rg.lower) * x)) (.int places)).map
        fun v => (⟨rg.stat, v⟩ : Modifier))) := by
  unfold rollStats
  congr 1
  funext rg
  simp only [uniform, bind_assoc, pure_bind]
  congr 1
  funext x
  generalize Num.roundTo (.float (rg.lower + (rg.upper - rg.lower) * x)) (.int places) = res
  cases res <;> rfl

theorem seeded_rollStats (places : Int) (ranges : List StatRange) :
    Draw.Seeded Fault.IsRounding (rollStats places ranges) := by
  rw [rollStats_eq]
  refine Draw.Seeded.mapM fun rg _ => seeded_unit.bind fun x => Draw.Seeded.fromExcept ?_
  intro e he
  cases hr : Num.roundTo (.float (rg.lower + (rg.upper - rg.lower) * x)) (.int places) with
  | ok v => rw [hr] at he; cases he
  | error e' =>
    rw [hr] at he
    cases he
    exact ⟨_, _, hr⟩

/-- Each stat drawn is the stat of its range, in order. -/
theorem rollStats_stats {places : Int} :
    ∀ {ranges : List StatRange} {s s' : Source} {mods : List Modifier},
      (rollStats places ranges).run s = .ok mods s' →
        mods.map (·.stat) = ranges.map (·.stat)
  | [], s, s', mods, h => by
    cases h
    rfl
  | rg :: rest, s, s', mods, h => by
    simp only [rollStats, List.mapM_cons] at h
    obtain ⟨m, s₁, hm, hrest⟩ := run_bind_eq_ok.1 h
    obtain ⟨ms, s₂, hms, hpure⟩ := run_bind_eq_ok.1 hrest
    obtain ⟨rfl, -⟩ := run_pure_eq_ok.1 hpure
    obtain ⟨x, s₃, -, hround⟩ := run_bind_eq_ok.1 hm
    have hstat : m.stat = rg.stat := by
      split at hround
      · exact ((run_pure_eq_ok.1 hround).1 ▸ rfl)
      · exact absurd hround (run_throw_ne_ok _)
    simp [hstat, rollStats_stats hms]

/-- Adding a value keeps the stats present, less possibly the stat added, and adds at most the
stat added. -/
theorem StatList.mem_stats_add {l : StatList} {t s : Stat} {v : Float}
    (h : t ∈ (l.add s v).stats) : t ∈ l.stats ∨ t = s := by
  rw [StatList.stats_add] at h
  split_ifs at h
  · exact .inl (List.mem_filter.1 h).1
  · exact .inl h
  · simpa using h

/-- Adding modifiers in order adds at most their stats. -/
theorem StatList.mem_stats_foldl_add (ms : List Modifier) :
    ∀ (l : StatList) {t : Stat}, t ∈ (ms.foldl (fun l m => l.add m.stat m.value) l).stats →
      t ∈ l.stats ∨ t ∈ ms.map (·.stat) := by
  induction ms with
  | nil => intro l t h; exact .inl h
  | cons m ms ih =>
    intro l t h
    -- the rest is added to the list with `m` added
    rcases ih _ h with h | h
    · rcases StatList.mem_stats_add h with h | rfl
      · exact .inl h
      · exact .inr List.mem_cons_self
    · exact .inr (List.mem_cons_of_mem _ h)

/-- The stats of a list built from modifiers are among the modifiers' stats. -/
theorem StatList.stats_ofModifiers_subset (ms : List Modifier) :
    ∀ st ∈ (StatList.ofModifiers ms).stats, st ∈ ms.map (·.stat) := by
  intro st hst
  rcases StatList.mem_stats_foldl_add ms StatList.empty hst with h | h
  · exact absurd h List.not_mem_nil
  · exact h

/-- A non-empty list is picked from by one draw below its length. -/
theorem pick_of_ne_nil {α : Type} {xs : List α} (h : xs ≠ []) :
    pick xs = below xs.length >>= fun j => pure xs[j]? := by
  have hne : xs.isEmpty = false := by simpa using h
  simp only [pick, hne]
  rfl

section Bounds

variable {c : Catalog} {r : Ref .affix} {crit : AffixCriteria} {u l : Option Int}

/-- A roll under bounds that are optional integers: nothing when no tier is eligible, and
otherwise one draw below the number of eligible tiers, then the stats of the tier at that place. -/
theorem rollAffix_eq_of_bounds (hu : crit.maximumTier = AffixCriteria.boundValue u)
    (hl : crit.itemLevel = AffixCriteria.boundValue l) :
    rollAffix c r crit =
      let ts := (c.affix r).tiers.tiers.filter (Tier.eligible u l)
      if ts = [] then pure none
      else (do
        let j ← below ts.length
        match ts[j]? with
        | none => pure none
        | some t =>
          let mods ← rollStats (t.places.getD 0) t.stats
          pure (some ⟨r, t.number, StatList.ofModifiers mods⟩)) := by
  unfold rollAffix
  simp only [AffixCriteria.eligibleTiers_of_bounds hu hl, fromExcept, pure_bind]
  split_ifs with hts
  · rw [hts]
    rfl
  · -- the chosen tier is matched on exactly as the roll matches on the pick
    rw [pick_of_ne_nil hts, bind_assoc]
    congr 1

/-- A roll that yields nothing found no eligible tier, and drew nothing. -/
theorem rollAffix_eq_none_iff (hu : crit.maximumTier = AffixCriteria.boundValue u)
    (hl : crit.itemLevel = AffixCriteria.boundValue l) {s s' : Source} :
    (rollAffix c r crit).run s = .ok none s' ↔
      (c.affix r).tiers.tiers.filter (Tier.eligible u l) = [] ∧ s' = s := by
  constructor
  · intro h
    have hnil := rollAffix_eq_none h
    rw [AffixCriteria.eligibleTiers_of_bounds hu hl, Except.ok.injEq] at hnil
    rw [rollAffix_eq_of_bounds hu hl] at h
    simp only [hnil, if_true, run_pure_eq_ok, true_and] at h
    exact ⟨hnil, h.symm⟩
  · rintro ⟨hnil, rfl⟩
    rw [rollAffix_eq_of_bounds hu hl]
    simp [hnil]

/-- A rolled affix is the roll of the stats of an eligible tier. -/
theorem rollAffix_eq_some_rolls (hu : crit.maximumTier = AffixCriteria.boundValue u)
    (hl : crit.itemLevel = AffixCriteria.boundValue l) {s s' : Source} {a : RolledAffix}
    (h : (rollAffix c r crit).run s = .ok (some a) s') :
    ∃ t ∈ (c.affix r).tiers.tiers.filter (Tier.eligible u l), ∃ s₁ mods,
      (rollStats (t.places.getD 0) t.stats).run s₁ = .ok mods s' ∧
      a = ⟨r, t.number, StatList.ofModifiers mods⟩ := by
  obtain ⟨ts, s₁, hread, hrest⟩ := run_bind_eq_ok.1 h
  have hts := eq_of_run_fromExcept (AffixCriteria.eligibleTiers_of_bounds hu hl _) hread
  obtain ⟨o, s₂, hpick, hrest⟩ := run_bind_eq_ok.1 hrest
  cases o with
  | none => simp at hrest
  | some t =>
    obtain ⟨mods, s₃, hmods, hrest⟩ := run_bind_eq_ok.1 hrest
    obtain ⟨ha, rfl⟩ := run_pure_eq_ok.1 hrest
    cases ha
    -- the tier picked is one of the eligible tiers, which are not none since one was picked
    have hne : ts ≠ [] := by
      rintro rfl
      cases (pick_nil (s := s₁)).symm.trans hpick
    obtain ⟨t', ht', ht⟩ := pick_mem hne hpick
    cases ht
    exact ⟨t, hts ▸ ht', s₂, mods, hmods, rfl⟩

/-- A rolled affix is of the definition rolled, has the number of an eligible tier, and has stats
only among that tier's stats. -/
theorem rollAffix_eq_some_spec (hu : crit.maximumTier = AffixCriteria.boundValue u)
    (hl : crit.itemLevel = AffixCriteria.boundValue l) {s s' : Source} {a : RolledAffix}
    (h : (rollAffix c r crit).run s = .ok (some a) s') :
    a.affix = r ∧ ∃ t ∈ (c.affix r).tiers.tiers.filter (Tier.eligible u l),
      a.tier = t.number ∧ ∀ st ∈ a.stats.stats, st ∈ t.stats.map (·.stat) := by
  obtain ⟨t, ht, s₁, mods, hmods, rfl⟩ := rollAffix_eq_some_rolls hu hl h
  refine ⟨rfl, t, ht, rfl, fun st hst => ?_⟩
  have hsub := StatList.stats_ofModifiers_subset mods st hst
  rwa [rollStats_stats hmods] at hsub

/-- From a seeded source, only a rounding can make a roll fail. -/
theorem seeded_rollAffix (hu : crit.maximumTier = AffixCriteria.boundValue u)
    (hl : crit.itemLevel = AffixCriteria.boundValue l) :
    Draw.Seeded Fault.IsRounding (rollAffix c r crit) := by
  unfold rollAffix
  refine (Draw.Seeded.fromExcept_ok (AffixCriteria.eligibleTiers_of_bounds hu hl _)).bind
    fun ts => ?_
  unfold pick
  refine Draw.Seeded.bind ?_ fun o => ?_
  · split
    · exact Draw.Seeded.pure none
    · exact (seeded_below _).bind fun j => Draw.Seeded.pure _
  · cases o with
    | none => exact Draw.Seeded.pure none
    | some t => exact (seeded_rollStats _ _).bind fun _ => Draw.Seeded.pure _

end Bounds

/-- Rolling an affix under a maximum tier and an item level that are optional integers. The id
conditions and the placement play no part. With no eligible tier the roll is nothing and draws
nothing; otherwise it is one draw below the number of eligible tiers, choosing the eligible tier at
that place in the map's order, and then one double from the unit interval per stat of that tier,
in stat order, each scaled into its range and rounded, the first rounding that fails ending the
roll. It yields nothing exactly when no tier is eligible; an affix it yields is of the definition
rolled, with the chosen tier's number and only that tier's stats; and from a seeded source only a
rounding makes it fail. -/
theorem rollAffix_tier_and_draws (c : Catalog) (r : Ref .affix) {crit : AffixCriteria}
    {u l : Option Int} (hu : crit.maximumTier = AffixCriteria.boundValue u)
    (hl : crit.itemLevel = AffixCriteria.boundValue l) :
    let ts := (c.affix r).tiers.tiers.filter (Tier.eligible u l)
    (∀ allowed disallowed placement,
      rollAffix c r { crit with allowed, disallowed, placement } = rollAffix c r crit) ∧
    (ts = [] → rollAffix c r crit = pure none) ∧
    (ts ≠ [] → rollAffix c r crit = (do
      let j ← below ts.length
      match ts[j]? with
      | none => pure none
      | some t =>
        let mods ← t.stats.mapM fun rg => do
          let x ← unit
          fromExcept ((Num.roundTo (.float (rg.lower + (rg.upper - rg.lower) * x))
            (.int (t.places.getD 0))).map fun v => (⟨rg.stat, v⟩ : Modifier))
        pure (some ⟨r, t.number, StatList.ofModifiers mods⟩))) ∧
    (∀ s o s', (rollAffix c r crit).run s = .ok o s' →
      (o = none ↔ ts = []) ∧
      ∀ a, o = some a → a.affix = r ∧
        ∃ t ∈ ts, a.tier = t.number ∧ ∀ st ∈ a.stats.stats, st ∈ t.stats.map (·.stat)) ∧
    (∀ g e s', (rollAffix c r crit).run (.twister g) = .error e s' → e.IsRounding) := by
  intro ts
  refine ⟨fun _ _ _ => rollAffix_congr rfl rfl rfl, fun hnil => ?_, fun hne => ?_,
    fun s o s' h => ?_, fun g e s' h => (seeded_rollAffix hu hl g).2 e s' h⟩
  · rw [rollAffix_eq_of_bounds hu hl]
    exact if_pos hnil
  · have hne' : (c.affix r).tiers.tiers.filter (Tier.eligible u l) ≠ [] := hne
    rw [rollAffix_eq_of_bounds hu hl]
    simp only [if_neg hne', rollStats_eq]
    rfl
  · cases o with
    | none =>
      exact ⟨iff_of_true rfl ((rollAffix_eq_none_iff hu hl).1 h).1, fun a ha => nomatch ha⟩
    | some a =>
      refine ⟨iff_of_false (nomatch ·) fun hnil => ?_, fun a' ha' => ?_⟩
      · rw [rollAffix_eq_of_bounds hu hl, if_pos hnil] at h
        cases h
      · cases ha'
        exact rollAffix_eq_some_spec hu hl h

/-- An affix of three tiers: the second needs item level ten, the third has two stats. -/
def tieredAffix : AffixDef where
  id := .int 7
  placement := .after
  name := .str (Text.Chars.ofString "of Vigor")
  tiers := ⟨[{ number := 1, stats := [⟨.health, 1.0, 3.0⟩] },
    { number := 2, stats := [⟨.health, 4.0, 6.0⟩], levelReq := some 10 },
    { number := 3, stats := [⟨.health, 7.0, 9.0⟩, ⟨.energy, 1.0, 2.0⟩], places := some 1 }]⟩

theorem rollAffix_tier_and_draws_sample :
    let c : Catalog := { affixes := #[tieredAffix] }
    let crit : AffixCriteria := { maximumTier := .int 2, itemLevel := .int 5 }
    crit.maximumTier = AffixCriteria.boundValue (some 2) ∧
    crit.itemLevel = AffixCriteria.boundValue (some 5) ∧
    let ts := (c.affix ⟨0⟩).tiers.tiers.filter (Tier.eligible (some 2) (some 5))
    (∀ allowed disallowed placement,
      rollAffix c ⟨0⟩ { crit with allowed, disallowed, placement } = rollAffix c ⟨0⟩ crit) ∧
    (ts = [] → rollAffix c ⟨0⟩ crit = pure none) ∧
    (ts ≠ [] → rollAffix c ⟨0⟩ crit = (do
      let j ← below ts.length
      match ts[j]? with
      | none => pure none
      | some t =>
        let mods ← t.stats.mapM fun rg => do
          let x ← unit
          fromExcept ((Num.roundTo (.float (rg.lower + (rg.upper - rg.lower) * x))
            (.int (t.places.getD 0))).map fun v => (⟨rg.stat, v⟩ : Modifier))
        pure (some ⟨⟨0⟩, t.number, StatList.ofModifiers mods⟩))) ∧
    (∀ s o s', (rollAffix c ⟨0⟩ crit).run s = .ok o s' →
      (o = none ↔ ts = []) ∧
      ∀ a, o = some a → a.affix = ⟨0⟩ ∧
        ∃ t ∈ ts, a.tier = t.number ∧ ∀ st ∈ a.stats.stats, st ∈ t.stats.map (·.stat)) ∧
    (∀ g e s', (rollAffix c ⟨0⟩ crit).run (.twister g) = .error e s' → e.IsRounding) :=
  ⟨rfl, rfl, rollAffix_tier_and_draws _ _ rfl rfl⟩

/-- An affix whose one tier rounds its one stat to four hundred places. -/
def overPreciseAffix : AffixDef where
  id := .int 1
  placement := .before
  name := .str (Text.Chars.ofString "Sturdy")
  tiers := ⟨[{ number := 1, stats := [⟨.health, 1.0, 1.0⟩], places := some 400 }]⟩

/-- Rounding to four hundred places fails for every double: the scale `10^400` is too large to be
a double. -/
theorem roundTo_four_hundred_places (x : Float) :
    Num.roundTo (.float x) (.int 400) = .error Fault.intTooLarge := by
  have hinf : (Float.ofInt (10 ^ 400)).isInf = true := by decide +kernel
  -- the magnitude is multiplied by the scale, which must first become a double
  have hmul : Num.mul (.float x.abs) (.int (10 ^ 400)) = .error Fault.intTooLarge := by
    rw [Num.mul, Num.intToFloat, if_pos hinf]
    rfl
  rw [Num.roundTo, Num.scaleOf, if_pos (by decide), except_ok_bind]
  exact congrArg (· >>= _) hmul

/-- Stats rounded to places that no double can be rounded to are never drawn. -/
theorem rollStats_ne_ok {places : Int} (hround : ∀ x, ∃ e, Num.roundTo (.float x) (.int places) = .error e)
    (rg : StatRange) (rest : List StatRange) {s s' : Source} {mods : List Modifier} :
    (rollStats places (rg :: rest)).run s ≠ .ok mods s' := by
  intro h
  rw [rollStats_eq, List.mapM_cons] at h
  obtain ⟨m, s₁, hm, -⟩ := run_bind_eq_ok.1 h
  obtain ⟨x, s₂, -, hround'⟩ := run_bind_eq_ok.1 hm
  obtain ⟨e, he⟩ := hround (rg.lower + (rg.upper - rg.lower) * x)
  rw [he] at hround'
  cases hround'

/-- The eligible tier of `overPreciseAffix` under unset bounds. -/
theorem overPreciseAffix_eligible :
    overPreciseAffix.tiers.tiers.filter (Tier.eligible none none) =
      [{ number := 1, stats := [⟨.health, 1.0, 1.0⟩], places := some 400 }] := rfl

/-- Rolling `overPreciseAffix` under criteria without bounds never succeeds, from any source: its
one tier is eligible, and the stat drawn for it cannot be rounded. -/
theorem rollAffix_overPrecise_ne_ok {c : Catalog} {r : Ref .affix}
    (hc : c.affix r = overPreciseAffix) {s s' : Source} {o : Option RolledAffix} :
    (rollAffix c r {}).run s ≠ .ok o s' := by
  intro h
  cases o with
  | none =>
    have hnil := ((rollAffix_eq_none_iff (u := none) (l := none) rfl rfl).1 h).1
    rw [hc, overPreciseAffix_eligible] at hnil
    cases hnil
  | some a =>
    obtain ⟨t, ht, s₁, mods, hmods, -⟩ := rollAffix_eq_some_rolls (u := none) (l := none) rfl rfl h
    rw [hc, overPreciseAffix_eligible, List.mem_singleton] at ht
    subst ht
    exact rollStats_ne_ok (fun x => ⟨_, roundTo_four_hundred_places x⟩) _ _ hmods

/-- The one tier of `overPreciseAffix` is eligible under criteria without bounds, yet no run of
its roll yields an affix: the stat drawn cannot be rounded. -/
theorem rollAffix_fails_to_round :
    overPreciseAffix.tiers.tiers.filter (Tier.eligible none none) ≠ [] ∧
    ∀ s o s', (rollAffix { affixes := #[overPreciseAffix] } ⟨0⟩ {}).run s ≠ .ok o s' :=
  ⟨by rw [overPreciseAffix_eligible]; exact List.cons_ne_nil _ _,
    fun _ _ _ => rollAffix_overPrecise_ne_ok rfl⟩

end Loot
