import Loot.Proofs.AffixRoll
import Loot.Roll.Item
import Mathlib.Data.List.ReduceOption

/-!
# Items with fixed affixes

An item whose definition lists fixed affixes rolls each of them once, in order, keeps those that
yield an affix, and draws its identifier; no count is drawn and no pool is read
(`rollItem_of_fixed`). The roll reads only the affix definitions and the tier bounds, and the item
is fabled (`rollItem_fixed_affixes`). A rounding can still fail (`rollItem_fixed_fails_to_round`).
-/

namespace Loot

open Loot.Json Loot.Random

variable {c : Catalog} {r : Ref .item} {crit : ItemCriteria}

/-- An item with fixed affixes rolls each of them once, in order, with the criteria's affix
conditions, keeps those that yield an affix, and then draws its identifier. -/
theorem rollItem_of_fixed (h : (c.item r).fixed ≠ []) :
    rollItem c r crit = (do
      let rolled ← (c.item r).fixed.mapM fun a => rollAffix c a (crit.affixCriteria.getD {})
      let g ← guid
      pure ⟨Text.Chars.ofString g, r, rolled.reduceOption⟩) := by
  have hne : (c.item r).fixed.isEmpty = false := by simpa using h
  simp only [rollItem, rollFixed, hne, Bool.false_eq_true, if_false, bind_assoc, pure_bind]

/-- The rarity of an item whose definition has fixed affixes is fabled, whatever its affixes. -/
theorem RolledItem.rarity_of_fixed {I : RolledItem} (h : (c.item I.item).fixed ≠ []) :
    I.rarity c = .ok .fabled := by
  have hne : (c.item I.item).fixed.isEmpty = false := by simpa using h
  simp [RolledItem.rarity, hne]

section Bounds

variable {crit : AffixCriteria} {u l : Option Int}

/-- Rolling each of a list of affixes keeps, in order and with repetition, the rolls of those that
have an eligible tier. -/
theorem mapM_rollAffix_reduceOption (hu : crit.maximumTier = AffixCriteria.boundValue u)
    (hl : crit.itemLevel = AffixCriteria.boundValue l) :
    ∀ {fixed : List (Ref .affix)} {s s' : Source} {rolled : List (Option RolledAffix)},
      (fixed.mapM fun a => rollAffix c a crit).run s = .ok rolled s' →
        rolled.reduceOption.map (·.affix) =
          fixed.filter fun a => (c.affix a).tiers.tiers.any (Tier.eligible u l)
  | [], s, s', rolled, h => by
    obtain ⟨rfl, -⟩ := run_pure_eq_ok.1 h
    rfl
  | a :: rest, s, s', rolled, h => by
    rw [List.mapM_cons] at h
    obtain ⟨o, s₁, ho, h⟩ := run_bind_eq_ok.1 h
    obtain ⟨os, s₂, hos, h⟩ := run_bind_eq_ok.1 h
    obtain ⟨rfl, -⟩ := run_pure_eq_ok.1 h
    have ih := mapM_rollAffix_reduceOption hu hl hos
    cases o with
    | none =>
      -- nothing rolled: the affix has no eligible tier, and is left out
      have hnil := ((rollAffix_eq_none_iff hu hl).1 ho).1
      have hany : (c.affix a).tiers.tiers.any (Tier.eligible u l) = false := by
        rw [List.any_eq_false]
        exact fun t ht hte => (List.filter_eq_nil_iff.1 hnil) t ht hte
      simp [List.reduceOption_cons_of_none, ih, hany]
    | some x =>
      -- an affix rolled: it is of this fixed affix, which has an eligible tier
      obtain ⟨hx, t, ht, -⟩ := rollAffix_eq_some_spec hu hl ho
      have hany : (c.affix a).tiers.tiers.any (Tier.eligible u l) = true :=
        List.any_eq_true.2 ⟨t, (List.mem_filter.1 ht).1, (List.mem_filter.1 ht).2⟩
      simp [List.reduceOption_cons_of_some, ih, hany, hx]

end Bounds

/-- Rolling an item with fixed affixes reads only the affix definitions, the item's fixed affixes
and the tier bounds of its affix conditions. -/
theorem rollItem_congr_of_fixed {c' : Catalog} {crit' : ItemCriteria}
    (hfixed : (c.item r).fixed ≠ []) (haffixes : c'.affixes = c.affixes)
    (hsame : (c'.item r).fixed = (c.item r).fixed)
    (hmax : (crit'.affixCriteria.getD {}).maximumTier = (crit.affixCriteria.getD {}).maximumTier)
    (hlevel : (crit'.affixCriteria.getD {}).itemLevel = (crit.affixCriteria.getD {}).itemLevel) :
    rollItem c' r crit' = rollItem c r crit := by
  rw [rollItem_of_fixed hfixed, rollItem_of_fixed (hsame ▸ hfixed), hsame]
  have hroll : ∀ a, rollAffix c' a (crit'.affixCriteria.getD {}) =
      rollAffix c a (crit.affixCriteria.getD {}) := fun a =>
    rollAffix_congr (by simp only [Catalog.affix, haffixes]) hmax hlevel
  simp only [hroll]

/-- From a seeded source, only a rounding can make the roll of an item with fixed affixes fail. -/
theorem seeded_rollItem_of_fixed {u l : Option Int} (hfixed : (c.item r).fixed ≠ [])
    (hu : (crit.affixCriteria.getD {}).maximumTier = AffixCriteria.boundValue u)
    (hl : (crit.affixCriteria.getD {}).itemLevel = AffixCriteria.boundValue l) :
    Draw.Seeded Fault.IsRounding (rollItem c r crit) := by
  rw [rollItem_of_fixed hfixed]
  exact (Draw.Seeded.mapM fun a _ => seeded_rollAffix hu hl).bind fun _ =>
    seeded_guid.bind fun _ => Draw.Seeded.pure _

/-- Rolling an item with fixed affixes, under affix conditions whose maximum tier and item level
are optional integers. It rolls each fixed affix once, in order, then draws the identifier, and
draws no count. It reads only the affix definitions, the item's fixed affixes and the two tier
bounds, so the count weighting, the id conditions, the placement, the item's pools and the pool
registry play no part. The item it yields has, in order and with repetition, an affix for exactly
those fixed affixes that have an eligible tier, and is fabled; from a seeded source only a rounding
makes the roll fail. -/
theorem rollItem_fixed_affixes {u l : Option Int} (hfixed : (c.item r).fixed ≠ [])
    (hu : (crit.affixCriteria.getD {}).maximumTier = AffixCriteria.boundValue u)
    (hl : (crit.affixCriteria.getD {}).itemLevel = AffixCriteria.boundValue l) :
    rollItem c r crit = (do
      let rolled ← (c.item r).fixed.mapM fun a => rollAffix c a (crit.affixCriteria.getD {})
      let g ← guid
      pure ⟨Text.Chars.ofString g, r, rolled.reduceOption⟩) ∧
    (∀ (c' : Catalog) (crit' : ItemCriteria), c'.affixes = c.affixes →
      (c'.item r).fixed = (c.item r).fixed →
      (crit'.affixCriteria.getD {}).maximumTier = (crit.affixCriteria.getD {}).maximumTier →
      (crit'.affixCriteria.getD {}).itemLevel = (crit.affixCriteria.getD {}).itemLevel →
      rollItem c' r crit' = rollItem c r crit) ∧
    (∀ s I s', (rollItem c r crit).run s = .ok I s' →
      I.item = r ∧
      I.affixes.map (·.affix) =
        (c.item r).fixed.filter (fun a => (c.affix a).tiers.tiers.any (Tier.eligible u l)) ∧
      I.rarity c = .ok .fabled) ∧
    (∀ g e s', (rollItem c r crit).run (.twister g) = .error e s' → e.IsRounding) := by
  refine ⟨rollItem_of_fixed hfixed,
    fun c' crit' haffixes hsame hmax hlevel =>
      rollItem_congr_of_fixed hfixed haffixes hsame hmax hlevel,
    fun s I s' h => ?_, fun g e s' h => (seeded_rollItem_of_fixed hfixed hu hl g).2 e s' h⟩
  rw [rollItem_of_fixed hfixed] at h
  obtain ⟨rolled, s₁, hrolled, h⟩ := run_bind_eq_ok.1 h
  obtain ⟨g, s₂, -, h⟩ := run_bind_eq_ok.1 h
  obtain ⟨rfl, -⟩ := run_pure_eq_ok.1 h
  exact ⟨rfl, mapM_rollAffix_reduceOption hu hl hrolled, RolledItem.rarity_of_fixed hfixed⟩

/-- An affix whose one tier needs item level fifty. -/
def ancientAffix : AffixDef where
  id := .int 8
  placement := .before
  name := .str (Text.Chars.ofString "Ancient")
  tiers := ⟨[{ number := 1, stats := [⟨.energy, 1.0, 2.0⟩], levelReq := some 50 }]⟩

/-- An item that lists `tieredAffix` twice and `ancientAffix` between, and a pool slot that no
catalog below has. -/
def charmItem : ItemDef where
  id := .int 3
  classification := .currency
  name := .str (Text.Chars.ofString "Charm")
  pools := [⟨5⟩]
  fixed := [⟨0⟩, ⟨1⟩, ⟨0⟩]

theorem rollItem_fixed_affixes_sample :
    let c : Catalog := { affixes := #[tieredAffix, ancientAffix], items := #[charmItem] }
    let crit : ItemCriteria := { weighting := [], affixCriteria := some { itemLevel := .int 5 } }
    (c.item ⟨0⟩).fixed ≠ [] ∧
    (crit.affixCriteria.getD {}).maximumTier = AffixCriteria.boundValue none ∧
    (crit.affixCriteria.getD {}).itemLevel = AffixCriteria.boundValue (some 5) ∧
    rollItem c ⟨0⟩ crit = (do
      let rolled ← (c.item ⟨0⟩).fixed.mapM fun a => rollAffix c a (crit.affixCriteria.getD {})
      let g ← guid
      pure ⟨Text.Chars.ofString g, ⟨0⟩, rolled.reduceOption⟩) ∧
    (∀ (c' : Catalog) (crit' : ItemCriteria), c'.affixes = c.affixes →
      (c'.item ⟨0⟩).fixed = (c.item ⟨0⟩).fixed →
      (crit'.affixCriteria.getD {}).maximumTier = (crit.affixCriteria.getD {}).maximumTier →
      (crit'.affixCriteria.getD {}).itemLevel = (crit.affixCriteria.getD {}).itemLevel →
      rollItem c' ⟨0⟩ crit' = rollItem c ⟨0⟩ crit) ∧
    (∀ s I s', (rollItem c ⟨0⟩ crit).run s = .ok I s' →
      I.item = ⟨0⟩ ∧
      I.affixes.map (·.affix) = (c.item ⟨0⟩).fixed.filter
        (fun a => (c.affix a).tiers.tiers.any (Tier.eligible none (some 5))) ∧
      I.rarity c = .ok .fabled) ∧
    (∀ g e s', (rollItem c ⟨0⟩ crit).run (.twister g) = .error e s' → e.IsRounding) :=
  ⟨List.cons_ne_nil _ _, rfl, rfl, rollItem_fixed_affixes (List.cons_ne_nil _ _) rfl rfl⟩

/-- An item whose one fixed affix is `overPreciseAffix`. -/
def overPreciseItem : ItemDef where
  id := .int 1
  classification := .currency
  name := .str (Text.Chars.ofString "Cap")
  pools := []
  fixed := [⟨0⟩]

/-- The item `overPreciseItem` has a fixed affix with an eligible tier under the default criteria,
yet no run of its roll yields an item: the fixed affix's stat cannot be rounded. -/
theorem rollItem_fixed_fails_to_round :
    let c : Catalog := { affixes := #[overPreciseAffix], items := #[overPreciseItem] }
    (c.item ⟨0⟩).fixed.filter (fun a => (c.affix a).tiers.tiers.any (Tier.eligible none none)) =
      [⟨0⟩] ∧
    ∀ s I s', (rollItem c ⟨0⟩ {}).run s ≠ .ok I s' := by
  intro c
  have hfixed : (c.item ⟨0⟩).fixed = [⟨0⟩] := rfl
  refine ⟨rfl, fun s I s' h => ?_⟩
  rw [rollItem_of_fixed (by rw [hfixed]; exact List.cons_ne_nil _ _)] at h
  obtain ⟨rolled, s₁, hrolled, -⟩ := run_bind_eq_ok.1 h
  -- the first fixed affix is rolled first, and that roll never succeeds
  rw [hfixed, List.mapM_cons] at hrolled
  obtain ⟨o, s₂, ho, -⟩ := run_bind_eq_ok.1 hrolled
  exact rollAffix_overPrecise_ne_ok rfl ho

end Loot
