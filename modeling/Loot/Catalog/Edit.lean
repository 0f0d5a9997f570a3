import Loot.Catalog.Load

/-!
# Editing a catalog

Edits change stored definitions in place, so every reference sees the change. Adding reads and
links one record and registers it under its id; removing takes an id out of its registry; changing a
definition's id leaves its key as it was. Every edit of a registered definition looks its key up
first.
-/

namespace Loot

open Loot.Json

namespace Catalog

/-- Changes the affix in a slot. -/
def modifyAffix (c : Catalog) (slot : Nat) (f : AffixDef → AffixDef) : Catalog :=
  { c with affixes := c.affixes.modify slot f }

/-- Changes the affix pool in a slot. -/
def modifyPool (c : Catalog) (slot : Nat) (f : PoolDef → PoolDef) : Catalog :=
  { c with pools := c.pools.modify slot f }

/-- Changes the item in a slot. -/
def modifyItem (c : Catalog) (slot : Nat) (f : ItemDef → ItemDef) : Catalog :=
  { c with items := c.items.modify slot f }

/-- Changes the loot pool in a slot. -/
def modifyLootPool (c : Catalog) (slot : Nat) (f : LootPoolDef → LootPoolDef) : Catalog :=
  { c with lootPools := c.lootPools.modify slot f }

/-- Reads, links and stores one record of a kind against the current registries, as loading with
`room` calls left reads it: its id and slot. -/
def storeRecord (c : Catalog) (room : Nat) (k : Kind) (raw : Value) :
    Except Fault (Catalog × Int × Nat) :=
  match k with
  | .affix => do
    let (id, d) ← AffixDef.ofValue (room - 3) raw
    let (c, s) := c.storeAffix d
    pure (c, id, s)
  | .affixPool => do
    let r ← WeightedRecord.ofValue (room - 2) .affixPool "affix_id" raw
    let (c, s) := c.storePool (← r.linkPool c.affixIds)
    pure (c, r.id, s)
  | .item => do
    let r ← ItemRecord.ofValue (room - 2) raw
    let (c, s) := c.storeItem (← r.link c.affixIds c.poolIds)
    pure (c, r.id, s)
  | .lootPool => do
    let r ← WeightedRecord.ofValue (room - 2) .lootPool "item_id" raw
    let (c, s) := c.storeLootPool (← r.linkLootPool c.itemIds)
    pure (c, r.id, s)

/-- Adds one record, registered under its id and replacing what was registered there. -/
def addRecord (c : Catalog) (room : Nat) (k : Kind) (raw : Value) : Except Fault Catalog := do
  let (c, id, s) ← c.storeRecord room k raw
  pure (c.withRegistry k ((c.registry k).insert id s))

/-- Removes a key given as a value from its registry: the slot it named, if any. -/
def remove (c : Catalog) (k : Kind) (id : Value) : Except Fault (Catalog × Option Nat) := do
  match ← c.lookupEntry k id with
  | some (key, slot) => pure (c.withRegistry k ((c.registry k).erase key), some slot)
  | none => pure (c, none)

/-- Sets the id field of a registered definition to any value; its registry key stays. -/
def setId (c : Catalog) (k : Kind) (key id : Value) : Except Fault Catalog := do
  let s ← c.require k key
  pure <| match k with
    | .affix => c.modifyAffix s fun d => { d with id }
    | .affixPool => c.modifyPool s fun d => { d with id }
    | .item => c.modifyItem s fun d => { d with id }
    | .lootPool => c.modifyLootPool s fun d => { d with id }

/-- Sets the name of a registered definition to any value. -/
def setName (c : Catalog) (k : Kind) (key name : Value) : Except Fault Catalog := do
  let s ← c.require k key
  pure <| match k with
    | .affix => c.modifyAffix s fun d => { d with name }
    | .affixPool => c.modifyPool s fun d => { d with name }
    | .item => c.modifyItem s fun d => { d with name }
    | .lootPool => c.modifyLootPool s fun d => { d with name }

/-- Sets the weight of a member of a registered pool or loot pool to any value; the member is
named by an index given as a value. -/
def setWeight (c : Catalog) (k : Kind) (key index w : Value) : Except Fault Catalog := do
  let s ← c.require k key
  let setAt := fun {α : Type} (ms : List (α × Value)) (i : Nat) =>
    ms.modify i fun m => (m.1, w)
  match k with
  | .affixPool =>
    let i ← index.indexIn (c.pool ⟨s⟩).members.length
    pure (c.modifyPool s fun d => { d with members := setAt d.members i })
  | .lootPool =>
    let i ← index.indexIn (c.lootPool ⟨s⟩).members.length
    pure (c.modifyLootPool s fun d => { d with members := setAt d.members i })
  | .affix => throw (Fault.noAttribute "AffixDefinition" "members")
  | .item => throw (Fault.noAttribute "ItemDefinition" "members")

/-- Sets the placement of a registered affix, read with `room` calls left, and then asks whether
the affix is valid. The placement is set once it is read, so a validity check that fails keeps
it. -/
def setPlacement (c : Catalog) (room : Nat) (key v : Value) :
    Except Fault (Catalog × Except Fault Bool) := do
  let s ← c.require .affix key
  let p ← Placement.ofValue room v
  let c := c.modifyAffix s fun d => { d with placement := p }
  pure (c, c.validAt .affix s)

/-- Sets the classification of a registered item, read with `room` calls left, and then asks
whether the item is valid. The classification is set once it is read, so a validity check that
fails keeps it. -/
def setClassification (c : Catalog) (room : Nat) (key v : Value) :
    Except Fault (Catalog × Except Fault Bool) := do
  let s ← c.require .item key
  let cl ← Classification.ofValue room v
  let c := c.modifyItem s fun d => { d with classification := cl }
  pure (c, c.validAt .item s)

/-- Adds a tier to a registered affix, read with `room` calls left, replacing the tier of the same
number: the affix's record. -/
def addTier (c : Catalog) (room : Nat) (key raw : Value) : Except Fault (Catalog × Value) := do
  let s ← c.require .affix key
  let t ← Tier.ofValue room raw
  let c := c.modifyAffix s fun d => { d with tiers := d.tiers.insert t }
  pure (c, c.recordAt .affix s)

end Catalog

end Loot
