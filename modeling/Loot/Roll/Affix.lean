import Loot.Catalog.Basic
import Loot.Random.Weighted

/-!
# Rolling affixes

An affix is rolled by choosing a tier uniformly among the eligible ones, those under the criteria's
optional maximum tier and item level, and drawing each stat of the tier uniformly from its range,
rounded to the tier's places. An affix pool first chooses an id by weight among the members the
criteria admit, then rolls the affix the id resolves to.
-/

namespace Loot

open Loot.Json Loot.Random

/-- Conditions on the affixes rolled; an unset field sets no condition. -/
structure AffixCriteria where
  /-- Only affixes whose id is in this set may be chosen from a pool. -/
  allowed : Option (List Value) := none
  /-- Affixes whose id is in this set may not be chosen from a pool. -/
  disallowed : Option (List Value) := none
  /-- Only affixes of this placement may be chosen from a pool. -/
  placement : Option Placement := none
  /-- Only tiers numbered at most this may be rolled; null sets no bound. -/
  maximumTier : Value := .null
  /-- The item level that tier requirements are checked against; a false value counts as zero. -/
  itemLevel : Value := .null
  deriving Inhabited

namespace AffixCriteria

/-- Whether a pool member with this id and placement may be chosen: the allowed set, the
disallowed set and the placement are checked in that order, and an id that cannot be a set member
fails as soon as a set is asked about it. -/
def admits (c : AffixCriteria) (id : Value) (p : Placement) : Except Fault Bool := do
  if let some ids := c.allowed then
    if !(← id.memberOf ids) then return false
  if let some ids := c.disallowed then
    if ← id.memberOf ids then return false
  if let some q := c.placement then
    if q != p then return false
  return true

/-- The tiers of a map that may be rolled: those numbered at most the maximum tier, when one is
set, and then those whose level requirement (zero when absent) is at most the item level. Each
comparison fails for a bound that is not a number, and a map without tiers compares nothing. -/
def eligibleTiers (c : AffixCriteria) (m : TierMap) : Except Fault (List Tier) := do
  let level := if c.itemLevel.truthy then c.itemLevel else .int 0
  let tiers ← match c.maximumTier with
    | .null => pure m.tiers
    | u => m.upTo u
  tiers.filterM fun t => Value.compareFrom .le (.int (t.levelReq.getD 0)) level

/-- The ids of a set given as a value: null sets no condition, and anything else is iterated and
each element must be able to be a set member. -/
def idSet : Value → Except Fault (Option (List Value))
  | .null => .ok none
  | v => some <$> v.keySet

/-- Reads criteria from an object of optional fields, with `room` calls left: the id sets and the
placement are read at once, the tier bounds are kept as given and compared only when tiers are
chosen. -/
def ofValue (room : Nat) (v : Value) : Except Fault AffixCriteria := do
  let allowed ← idSet (← v.memberOr "allowed_ids" .null)
  let disallowed ← idSet (← v.memberOr "disallowed_ids" .null)
  let placement ← match ← v.memberOr "placement" .null with
    | .null => pure none
    | p => some <$> Placement.ofValue room p
  let maximumTier ← v.memberOr "maximum_tier" .null
  let itemLevel ← v.memberOr "item_level" .null
  pure { allowed, disallowed, placement, maximumTier, itemLevel }

end AffixCriteria

/-- A rolled affix: its definition, the tier rolled, and the stat values. -/
structure RolledAffix where
  /-- The definition. -/
  affix : Ref .affix
  /-- The number of the tier rolled. -/
  tier : Int
  /-- The stat values. -/
  stats : StatList
  deriving Inhabited

namespace RolledAffix

/-- The text of a rolled affix, asked for with `room` calls left: `T1 of Vigor: Health +3`. It is
written two calls deeper, and the name is written in it as an f-string writes it. -/
def text (room : Nat) (c : Catalog) (a : RolledAffix) : Except Fault Text.Chars := do
  let name ← (c.affix a.affix).name.formatted (room - 2)
  pure (Text.Chars.ofString ("T" ++ toString a.tier ++ " ") ++ name ++
    Text.Chars.ofString (": " ++ a.stats.text))

/-- The record of a rolled affix; the definition is written as its current id. -/
def toValue (c : Catalog) (a : RolledAffix) : Value :=
  Value.record [("affix_def_id", (c.affix a.affix).id), ("tier", .int a.tier),
    ("stats", a.stats.toValue)]

/-- Reads a rolled affix record: the definition's id as an integer, looked up in the affix
registry, then the tier, then the stats (none by default). -/
def ofValue (c : Catalog) (raw : Value) : Except Fault RolledAffix := do
  let slot ← c.require .affix (.int (← (← raw.member "affix_def_id").toInt))
  let tier ← (← raw.member "tier").toInt
  let stats ← StatList.ofValue (← raw.memberOr "stats" (.obj []))
  pure ⟨⟨slot⟩, tier, stats⟩

/-- Whether two rolled affixes have the same definition, the same tier and equal stats. -/
def equiv (a b : RolledAffix) : Bool :=
  a.affix == b.affix && a.tier == b.tier && a.stats.equiv b.stats

end RolledAffix

/-- Draws a value for each stat range, in order, rounded to `places`. -/
def rollStats (places : Int) (ranges : List StatRange) : Draw (List Modifier) :=
  ranges.mapM fun r => do
    let x ← uniform r.lower r.upper
    match Num.roundTo (.float x) (.int places) with
    | .ok v => pure ⟨r.stat, v⟩
    | .error e => throw e

/-- Rolls an affix: a uniform choice among the eligible tiers, then its stats. -/
def rollAffix (c : Catalog) (r : Ref .affix) (crit : AffixCriteria) :
    Draw (Option RolledAffix) := do
  let d := c.affix r
  match ← pick (← fromExcept (crit.eligibleTiers d.tiers)) with
  | none => pure none
  | some t =>
    let mods ← rollStats (t.places.getD 0) t.stats
    pure (some ⟨r, t.number, StatList.ofModifiers mods⟩)

/-- The members of a pool admitted by the criteria, as current ids and weights. -/
def admitted (c : Catalog) (members : List (Ref .affix × Value)) (crit : AffixCriteria) :
    Except Fault (List (Value × Value)) :=
  members.filterMapM fun m => do
    let d := c.affix m.1
    if ← crit.admits d.id d.placement then pure (some (d.id, m.2)) else pure none

/-- Chooses an affix id from pool members by weight, among the admitted ones. -/
def chooseAffixId (c : Catalog) (members : List (Ref .affix × Value)) (crit : AffixCriteria) :
    Draw (Option Value) := do
  let candidates ← fromExcept (admitted c members crit)
  match ← weightedIndexOf (candidates.map (·.2)) with
  | none => pure none
  | some i => pure (candidates[i]?.map (·.1))

/-- Rolls an affix from pool members: an id is chosen, looked up, and rolled. A chosen id that is
null counts as no choice. -/
def rollFromPool (c : Catalog) (members : List (Ref .affix × Value)) (crit : AffixCriteria) :
    Draw (Option RolledAffix) := do
  match ← chooseAffixId c members crit with
  | none | some .null => pure none
  | some id => rollAffix c ⟨← fromExcept (c.require .affix id)⟩ crit

end Loot
