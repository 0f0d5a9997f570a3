import Loot.Catalog.Files

/-!
# The standard catalog

The catalog that ships with the game: seven affixes, three affix pools, five items and two loot
pools. It is given as records and loaded like any other catalog.
-/

namespace Loot.Standard

open Loot.Json

/-- A stat range record. -/
def range (stat : String) (lower upper : Float) : Value :=
  Value.record [("stat", .str stat), ("lower_bound", .float lower), ("upper_bound", .float upper)]

/-- A tier record with optional requirement and places. -/
def tier (n : Int) (stats : List Value) (levelReq places : Option Int := none) : Value :=
  Value.record ([("tier", .int n), ("stats", .arr stats)] ++
    (levelReq.map fun l => ("item_level_req", Value.int l)).toList ++
    (places.map fun p => ("precision_places", Value.int p)).toList)

/-- An affix record. -/
def affix (id : Int) (placement : String) (tiers : List Value) (name : String) : Value :=
  Value.record [("id", .int id), ("placement", .str placement),
    ("tiers", Value.record (tiers.zipIdx.map fun (t, i) => (toString (i + 1), t))),
    ("name", .str name)]

/-- A weighted member record. -/
def member (key : String) (id weight : Int) : Value :=
  Value.record [(key, .int id), ("weight", .int weight)]

/-- The affix records. -/
def affixes : List Value := [
  affix 1 "Suffix" [tier 1 [range "Health" 1.0 3.0], tier 2 [range "Health" 4.0 6.0] (some 5),
    tier 3 [range "Health" 7.0 10.0] (some 10)] "of Vigor",
  affix 2 "Prefix" [tier 1 [range "MoveSpeed" 0.05 0.1] none (some 2),
    tier 2 [range "MoveSpeed" 0.1 0.2] (some 8) (some 2)] "Swift",
  affix 3 "Prefix" [tier 1 [range "Resolve" 1.0 2.0], tier 2 [range "Resolve" 3.0 4.0] (some 5)]
    "Resolute",
  affix 4 "Suffix" [tier 1 [range "Finesse" 1.0 2.0], tier 2 [range "Finesse" 2.0 4.0] (some 6)]
    "of Finesse",
  affix 5 "Prefix" [tier 1 [range "Complexity" 1.0 3.0]] "Intricate",
  affix 6 "Suffix" [tier 1 [range "Energy" 5.0 10.0], tier 2 [range "Energy" 10.0 20.0] (some 10)]
    "of Energy",
  affix 7 "Prefix" [tier 1 [range "Health" 2.0 4.0, range "Resolve" 1.0 1.0]] "Stalwart"]

/-- A pool record. -/
def pool (id : Int) (members : List (Int × Int)) (name : String) : Value :=
  Value.record [("id", .int id), ("members", .arr (members.map fun m => member "affix_id" m.1 m.2)),
    ("name", .str name)]

/-- The affix pool records. -/
def pools : List Value := [
  pool 1 [(1, 100), (3, 80), (7, 40), (6, 60)] "Armor",
  pool 2 [(2, 100), (4, 50), (1, 50)] "Footwear",
  pool 3 [(5, 70), (6, 30), (4, 30)] "Trinket"]

/-- An item record. -/
def item (id : Int) (classification : Value) (pools fixed : List Int) (name : String) : Value :=
  Value.record [("id", .int id), ("classification", classification),
    ("affix_pools", .arr (pools.map .int)), ("fixed_affixes", .arr (fixed.map .int)),
    ("name", .str name)]

/-- The classification record of an equippable item. -/
def worn (slot : String) : Value := Value.record [("Equippable", .str slot)]

/-- The item records. -/
def items : List Value := [
  item 1 (worn "Head") [1] [] "Leather Cap",
  item 2 (worn "Boots") [2, 1] [] "Worn Boots",
  item 3 (.str "Currency") [] [] "Scrap Coin",
  item 4 (worn "Head") [1] [7, 5] "Crown of the Lost",
  item 5 (worn "Belt") [1, 3] [] "Studded Belt"]

/-- A loot pool record. -/
def lootPool (id : Int) (name : String) (members : List (Int × Int)) : Value :=
  Value.record [("id", .int id), ("name", .str name),
    ("members", .arr (members.map fun m => member "item_id" m.1 m.2))]

/-- The loot pool records. -/
def lootPools : List Value := [
  lootPool 1 "Scavenger" [(1, 50), (2, 30), (3, 100)],
  lootPool 2 "Warden" [(4, 5), (5, 20), (2, 20)]]

/-- The standard catalog, loaded as a catalog is loaded from its directory. -/
def catalog : Except Fault Catalog :=
  Catalog.ofRecords (Catalog.recordRoom Catalog.loadDepth) affixes pools items lootPools

end Loot.Standard
