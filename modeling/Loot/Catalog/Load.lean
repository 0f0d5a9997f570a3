import Loot.Catalog.Basic
import Loot.Affix.Parse

/-!
# Loading a catalog

Records are loaded registry by registry, affixes, affix pools, items and loot pools, each linking
against the registries loaded before it. Affix records are read and registered one at a time; the
others are all read first, then linked and registered one at a time. A failure leaves nothing
loaded. Each record is read some calls deeper than loading is asked for: affix records three, the
others two.
-/

namespace Loot

open Loot.Json

/-- A pool or loot pool record before its references are linked. -/
structure WeightedRecord where
  /-- The id. -/
  id : Int
  /-- The name. -/
  name : Text.Chars
  /-- The referenced ids and their weights, in order. -/
  members : List (Int × Int)

/-- Reads a pool or loot pool record whose members refer by the key `refKey`: each member's
weight first, which must not be negative, then its reference; then the id and the name. The
reader is called with `room` calls left, and its body runs one call deeper. -/
def WeightedRecord.ofValue (room : Nat) (kind : Kind) (refKey : String) (raw : Value) :
    Except Fault WeightedRecord :=
  asMalformed (room - 1) kind recordExpected raw do
    let members ← (← (← raw.member "members").elements).mapM fun m => do
      let w ← (← m.member "weight").toInt
      if w < 0 then throw (Fault.value ("negative weight " ++ toString w))
      pure ((← (← m.member refKey).toInt), w)
    let id ← (← raw.member "id").toInt
    let name ← (← raw.memberOr "name" (.str "")).text (room - 1)
    pure ⟨id, name, members⟩

/-- An item record before its references are linked. -/
structure ItemRecord where
  /-- The id. -/
  id : Int
  /-- The classification. -/
  classification : Classification
  /-- The name. -/
  name : Text.Chars
  /-- The ids of its pools. -/
  pools : List Int
  /-- The ids of its fixed affixes. -/
  fixed : List Int

/-- Reads an item record: id, classification, name, then the pool ids and the fixed affix ids
(both empty by default). The reader is called with `room` calls left, and its body runs one call
deeper. -/
def ItemRecord.ofValue (room : Nat) (raw : Value) : Except Fault ItemRecord :=
  asMalformed (room - 1) .item recordExpected raw do
    let id ← (← raw.member "id").toInt
    let classification ← Classification.ofValue (room - 1) (← raw.member "classification")
    let name ← (← raw.memberOr "name" (.str "")).text (room - 1)
    let pools ← (← (← raw.memberOr "affix_pools" (.arr [])).elements).mapM Value.toInt
    let fixed ← (← (← raw.memberOr "fixed_affixes" (.arr [])).elements).mapM Value.toInt
    pure ⟨id, classification, name, pools, fixed⟩

/-- Resolves a referenced id in a registry; a missing id is an unknown reference of the owner. -/
def resolve (reg : Registry) (owner : Kind) (ownerId : Int) (target : Kind) (id : Int) :
    Except Fault Nat :=
  match reg.find? id with
  | some s => .ok s
  | none => .error (.load (.unknownReference owner ownerId target id))

/-- Links a pool record against the affix registry. -/
def WeightedRecord.linkPool (r : WeightedRecord) (affixes : Registry) : Except Fault PoolDef := do
  let members ← r.members.mapM fun m => do
    pure ((⟨← resolve affixes .affixPool r.id .affix m.1⟩ : Ref .affix), Value.int m.2)
  pure ⟨.int r.id, .str r.name, members⟩

/-- Links a loot pool record against the item registry. -/
def WeightedRecord.linkLootPool (r : WeightedRecord) (items : Registry) :
    Except Fault LootPoolDef := do
  let members ← r.members.mapM fun m => do
    pure ((⟨← resolve items .lootPool r.id .item m.1⟩ : Ref .item), Value.int m.2)
  pure ⟨.int r.id, .str r.name, members⟩

/-- Links an item record: all its pools first, then its fixed affixes. -/
def ItemRecord.link (r : ItemRecord) (affixes pools : Registry) : Except Fault ItemDef := do
  let ps ← r.pools.mapM fun p => do
    pure (⟨← resolve pools .item r.id .affixPool p⟩ : Ref .affixPool)
  let fs ← r.fixed.mapM fun a => do
    pure (⟨← resolve affixes .item r.id .affix a⟩ : Ref .affix)
  pure ⟨.int r.id, r.classification, .str r.name, ps, fs⟩

namespace Catalog

/-- Stores an affix in a new slot. -/
def storeAffix (c : Catalog) (d : AffixDef) : Catalog × Nat :=
  ({ c with affixes := c.affixes.push d }, c.affixes.size)

/-- Stores an affix pool in a new slot. -/
def storePool (c : Catalog) (d : PoolDef) : Catalog × Nat :=
  ({ c with pools := c.pools.push d }, c.pools.size)

/-- Stores an item in a new slot. -/
def storeItem (c : Catalog) (d : ItemDef) : Catalog × Nat :=
  ({ c with items := c.items.push d }, c.items.size)

/-- Stores a loot pool in a new slot. -/
def storeLootPool (c : Catalog) (d : LootPoolDef) : Catalog × Nat :=
  ({ c with lootPools := c.lootPools.push d }, c.lootPools.size)

/-- Registers a stored definition under its id in a registry being loaded; an id that is
already there is a duplicate. -/
def register (k : Kind) (reg : Registry) (id : Int) (slot : Nat) : Except Fault Registry :=
  if reg.contains id then .error (.load (.duplicate k id)) else .ok (reg.insert id slot)

/-- Loads affix records into a new registry, reading and registering one at a time. -/
def loadAffixes (c : Catalog) (room : Nat) (raws : List Value) :
    Except Fault (Catalog × Registry) :=
  raws.foldlM (fun acc raw => do
    let (id, d) ← AffixDef.ofValue (room - 3) raw
    let (c, slot) := acc.1.storeAffix d
    pure (c, ← register .affix acc.2 id slot)) (c, Registry.empty)

/-- Loads affix pool records into a new registry, linked against `affixes`. -/
def loadPools (c : Catalog) (room : Nat) (affixes : Registry) (raws : List Value) :
    Except Fault (Catalog × Registry) := do
  let records ← raws.mapM (WeightedRecord.ofValue (room - 2) .affixPool "affix_id")
  records.foldlM (fun acc r => do
    let d ← r.linkPool affixes
    let (c, slot) := acc.1.storePool d
    pure (c, ← register .affixPool acc.2 r.id slot)) (c, Registry.empty)

/-- Loads item records into a new registry, linked against `affixes` and `pools`. -/
def loadItems (c : Catalog) (room : Nat) (affixes pools : Registry) (raws : List Value) :
    Except Fault (Catalog × Registry) := do
  let records ← raws.mapM (ItemRecord.ofValue (room - 2))
  records.foldlM (fun acc r => do
    let d ← r.link affixes pools
    let (c, slot) := acc.1.storeItem d
    pure (c, ← register .item acc.2 r.id slot)) (c, Registry.empty)

/-- Loads loot pool records into a new registry, linked against `items`. -/
def loadLootPools (c : Catalog) (room : Nat) (items : Registry) (raws : List Value) :
    Except Fault (Catalog × Registry) := do
  let records ← raws.mapM (WeightedRecord.ofValue (room - 2) .lootPool "item_id")
  records.foldlM (fun acc r => do
    let d ← r.linkLootPool items
    let (c, slot) := acc.1.storeLootPool d
    pure (c, ← register .lootPool acc.2 r.id slot)) (c, Registry.empty)

/-- Loads the records of one kind into a new registry, linked against the registries of the
catalog, and installs it. -/
def loadKind (c : Catalog) (room : Nat) (k : Kind) (raws : List Value) : Except Fault Catalog := do
  let (c', reg) ← match k with
    | .affix => c.loadAffixes room raws
    | .affixPool => c.loadPools room c.affixIds raws
    | .item => c.loadItems room c.affixIds c.poolIds raws
    | .lootPool => c.loadLootPools room c.itemIds raws
  pure (c'.withRegistry k reg)

/-- A catalog from the records of its four registries, loaded in order. -/
def ofRecords (room : Nat) (affixes pools items lootPools : List Value) :
    Except Fault Catalog := do
  let c ← empty.loadKind room .affix affixes
  let c ← c.loadKind room .affixPool pools
  let c ← c.loadKind room .item items
  c.loadKind room .lootPool lootPools

/-- The calls left where the records given with a request are loaded. -/
def requestRoom : Nat := 996

/-- The class name of a registry of a kind. -/
def registryClass : Kind → String
  | .affix => "AffixDefinitionDatabase"
  | .affixPool => "AffixPoolDefinitionDatabase"
  | .item => "ItemDefinitionDatabase"
  | .lootPool => "LootPoolDefinitionDatabase"

/-- The registries a kind links against, in order. -/
def dependencies : Kind → List Kind
  | .affix => []
  | .affixPool => [.affix]
  | .item => [.affix, .affixPool]
  | .lootPool => [.item]

/-- The names under which a registry of a kind takes the registries it links against. -/
def dependencyNames : Kind → List String
  | .affix => []
  | .affixPool => ["affix_db"]
  | .item => ["affix_db", "affix_pool_db"]
  | .lootPool => ["item_db"]

/-- The failure of building a registry of a kind from records and `given` registries when it
takes another number of them. The count in the message includes the records and the class. -/
def arityFault (k : Kind) (given : Nat) : Option Fault :=
  let names := dependencyNames k
  let call := registryClass k ++ ".from_raw()"
  if names.length < given then
    some (Fault.type (call ++ " takes " ++ toString (names.length + 2) ++
      " positional arguments but " ++ toString (given + 2) ++ " were given"))
  else
    match names.drop given with
    | [] => none
    | [n] => some (Fault.type (call ++ " missing 1 required positional argument: '" ++ n ++ "'"))
    | missing =>
      let quoted := missing.map fun n => "'" ++ n ++ "'"
      some (Fault.type (call ++ " missing " ++ toString missing.length ++
        " required positional arguments: " ++ ", ".intercalate quoted.dropLast ++ " and " ++
        quoted.getLast?.getD ""))

/-- Checks the registries given for a reload: as many as the kind links against, each of the
kind it needs (a missing one counts as none). -/
def checkDependencies (k : Kind) (given : List (Option Kind)) : Except Fault Unit := do
  if let some f := arityFault k given.length then throw f
  ((dependencies k).zipIdx).forM fun (want, i) =>
    match given[i]?.join with
    | some got =>
      if got = want then .ok ()
      else .error (.dependency (registryClass k) (registryClass want) (registryClass got))
    | none => .error (.dependency (registryClass k) (registryClass want) "NoneType")

/-- Replaces the registry of a kind by one loaded from records: the dependencies are checked
first, then the records are loaded against the catalog's registries. -/
def reload (c : Catalog) (room : Nat) (k : Kind) (deps : List (Option Kind)) (records : Value) :
    Except Fault Catalog := do
  checkDependencies k deps
  c.loadKind room k (← records.elements)

end Catalog

end Loot
