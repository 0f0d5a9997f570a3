import Loot.Affix.Basic
import Loot.Item.Classification
import Loot.Catalog.Registry

/-!
# Catalogs

A catalog holds the definitions of a game's loot: affixes, affix pools, items and loot pools.
Definitions refer to each other, and a reference names the very definition it was linked to, not
an id: changing a definition's id, or removing it from its registry, does not change what refers
to it. So a catalog stores every definition in a slot of its own, references are slots, and each
of the four registries maps ids to slots. A definition's id field and its registry key agree when
it is registered, and may part when the id field is changed later.

A definition's record writes each reference as the current id of the definition it names.
-/

namespace Loot

open Loot.Json

/-- A reference to a stored definition of registry `k`. -/
structure Ref (k : Kind) where
  /-- The slot of the definition. -/
  slot : Nat
  deriving DecidableEq, Repr, Inhabited

/-- An affix pool: weighted affixes to draw from. Its id, name and weights are an integer, a
string and integers when read from a record; an edit may set any of them to any value. -/
structure PoolDef where
  /-- The id. -/
  id : Value
  /-- The name. -/
  name : Value
  /-- The affixes and their weights, in order; an affix may appear more than once. -/
  members : List (Ref .affix × Value)
  deriving Inhabited

/-- An item definition. Its id and name are an integer and a string when read from a record; an
edit may set either to any value. -/
structure ItemDef where
  /-- The id. -/
  id : Value
  /-- What kind of item it is. -/
  classification : Classification
  /-- The name. -/
  name : Value
  /-- The pools its random affixes come from, in order. -/
  pools : List (Ref .affixPool)
  /-- The affixes it always has; when there are any, no random affix is drawn. -/
  fixed : List (Ref .affix)
  deriving Inhabited

/-- A loot pool: weighted items to drop. Its id, name and weights are an integer, a string and
integers when read from a record; an edit may set any of them to any value. -/
structure LootPoolDef where
  /-- The id. -/
  id : Value
  /-- The name. -/
  name : Value
  /-- The items and their weights, in order. -/
  members : List (Ref .item × Value)
  deriving Inhabited

/-- The stored definitions and the four registries. -/
structure Catalog where
  /-- The affix definitions, by slot. -/
  affixes : Array AffixDef := #[]
  /-- The affix pools, by slot. -/
  pools : Array PoolDef := #[]
  /-- The item definitions, by slot. -/
  items : Array ItemDef := #[]
  /-- The loot pools, by slot. -/
  lootPools : Array LootPoolDef := #[]
  /-- The registered affixes. -/
  affixIds : Registry := .empty
  /-- The registered affix pools. -/
  poolIds : Registry := .empty
  /-- The registered items. -/
  itemIds : Registry := .empty
  /-- The registered loot pools. -/
  lootPoolIds : Registry := .empty
  deriving Inhabited

namespace Catalog

/-- The catalog without definitions. -/
def empty : Catalog := {}

/-- The affix in a slot. -/
def affix (c : Catalog) (r : Ref .affix) : AffixDef := c.affixes[r.slot]?.getD default

/-- The affix pool in a slot. -/
def pool (c : Catalog) (r : Ref .affixPool) : PoolDef := c.pools[r.slot]?.getD default

/-- The item in a slot. -/
def item (c : Catalog) (r : Ref .item) : ItemDef := c.items[r.slot]?.getD default

/-- The loot pool in a slot. -/
def lootPool (c : Catalog) (r : Ref .lootPool) : LootPoolDef := c.lootPools[r.slot]?.getD default

/-- The registry of a kind. -/
def registry (c : Catalog) : Kind → Registry
  | .affix => c.affixIds
  | .affixPool => c.poolIds
  | .item => c.itemIds
  | .lootPool => c.lootPoolIds

/-- Replaces the registry of a kind. -/
def withRegistry (c : Catalog) (k : Kind) (r : Registry) : Catalog :=
  match k with
  | .affix => { c with affixIds := r }
  | .affixPool => { c with poolIds := r }
  | .item => { c with itemIds := r }
  | .lootPool => { c with lootPoolIds := r }

/-- The registered id equal to a key given as a value, and its slot, if any. A list or an
object cannot be a key. -/
def lookupEntry (c : Catalog) (k : Kind) (id : Value) : Except Fault (Option (Int × Nat)) := do
  id.checkKey
  pure ((c.registry k).entries.find? fun e => id.sameKey (.int e.1))

/-- The slot registered under a key given as a value, if any. -/
def lookup (c : Catalog) (k : Kind) (id : Value) : Except Fault (Option Nat) :=
  (·.map (·.2)) <$> c.lookupEntry k id

/-- The slot registered under a key given as a value; a missing key fails, naming the key. -/
def require (c : Catalog) (k : Kind) (id : Value) : Except Fault Nat := do
  match ← c.lookup k id with
  | some slot => pure slot
  -- a key holds no other value, so two calls are all that writing it in an f-string takes
  | none => throw (.notFound k (← id.formatted 2))

/-- The current id of the definition in a slot. -/
def idAt (c : Catalog) : Kind → Nat → Value
  | .affix, s => (c.affix ⟨s⟩).id
  | .affixPool, s => (c.pool ⟨s⟩).id
  | .item, s => (c.item ⟨s⟩).id
  | .lootPool, s => (c.lootPool ⟨s⟩).id

/-- The record of the definition in a slot, references written as current ids. -/
def recordAt (c : Catalog) : Kind → Nat → Value
  | .affix, s => (c.affix ⟨s⟩).toValue
  | .affixPool, s =>
    let d := c.pool ⟨s⟩
    .obj [("id", d.id),
      ("members", .arr (d.members.map fun m =>
        .obj [("affix_id", (c.affix m.1).id), ("weight", m.2)])),
      ("name", d.name)]
  | .item, s =>
    let d := c.item ⟨s⟩
    .obj [("id", d.id), ("classification", d.classification.toValue),
      ("affix_pools", .arr (d.pools.map fun r => (c.pool r).id)),
      ("fixed_affixes", .arr (d.fixed.map fun r => (c.affix r).id)),
      ("name", d.name)]
  | .lootPool, s =>
    let d := c.lootPool ⟨s⟩
    .obj [("id", d.id), ("name", d.name),
      ("members", .arr (d.members.map fun m =>
        .obj [("item_id", (c.item m.1).id), ("weight", m.2)]))]

/-- Whether the definition in a slot is valid: an affix by its own rule, a pool or a loot pool
when it has members, an item when its classification is valid. -/
def validAt (c : Catalog) : Kind → Nat → Except Fault Bool
  | .affix, s => (c.affix ⟨s⟩).valid
  | .affixPool, s => .ok !(c.pool ⟨s⟩).members.isEmpty
  | .item, s => .ok (c.item ⟨s⟩).classification.isValid
  | .lootPool, s => .ok !(c.lootPool ⟨s⟩).members.isEmpty

/-- The records of a registry, by ascending id. -/
def dump (c : Catalog) (k : Kind) : Value := .arr ((c.registry k).slots.map (c.recordAt k))

/-- A registry is valid when it is not empty and all its definitions are valid; the definitions
are checked by ascending id up to the first invalid one. -/
def valid (c : Catalog) (k : Kind) : Except Fault Bool :=
  let slots := (c.registry k).slots
  if slots.isEmpty then .ok false else slots.allM (c.validAt k)

/-- All four kinds, in loading order. -/
def kinds : List Kind := [.affix, .affixPool, .item, .lootPool]

end Catalog

end Loot
