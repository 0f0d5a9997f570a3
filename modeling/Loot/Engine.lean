import Loot.Roll.Item
import Loot.Catalog.Files
import Loot.Catalog.Edit

/-!
# The loot engine

An engine is a catalog with the one random source all its rolls share. Each operation answers a
result or a failure with the engine after it: a failed roll keeps the numbers it drew consumed, and
a failed edit or reload leaves the catalog as it was. Criteria come as records, null standing for
the defaults; an engine asked to roll without the registries a roll needs fails before drawing.
-/

namespace Loot

open Loot.Json Loot.Random

/-- A catalog and its random source. -/
structure Engine where
  /-- The definitions. -/
  catalog : Catalog
  /-- The random source all rolls share. -/
  source : Source
  deriving Inhabited

namespace Engine

/-- The calls left where a step of a session runs. -/
def stepRoom : Nat := 996

end Engine

/-- Affix criteria from a record of a session step; null sets no condition. -/
def AffixCriteria.ofRecord : Value → Except Fault AffixCriteria
  | .null => .ok {}
  | v => AffixCriteria.ofValue Engine.stepRoom v

/-- Item criteria from a record of a session step; null is the default criteria. -/
def ItemCriteria.ofRecord : Value → Except Fault ItemCriteria
  | .null => .ok {}
  | v => ItemCriteria.ofValue Engine.stepRoom v

namespace Engine

/-- Runs a draw on the engine's source. -/
def draw {α : Type} (e : Engine) (d : Draw α) : Except Fault α × Engine :=
  match d.run e.source with
  | .ok a s => (.ok a, { e with source := s })
  | .error f s => (.error f, { e with source := s })

/-- Runs a draw after a lookup that may fail. -/
def drawAfter {α β : Type} (e : Engine) (x : Except Fault α) (d : α → Draw β) :
    Except Fault β × Engine :=
  match x with
  | .ok a => e.draw (d a)
  | .error f => (.error f, e)

/-- Rolls a registered affix. -/
def rollAffix (e : Engine) (id criteria : Value) :
    Except Fault (Option RolledAffix) × Engine :=
  e.drawAfter (do pure (← e.catalog.require .affix id, ← AffixCriteria.ofRecord criteria))
    fun (s, c) =>
    Loot.rollAffix e.catalog ⟨s⟩ c

/-- Chooses an affix id from a registered pool. -/
def chooseAffixId (e : Engine) (id criteria : Value) :
    Except Fault (Option Value) × Engine :=
  e.drawAfter (do pure (← e.catalog.require .affixPool id, ← AffixCriteria.ofRecord criteria))
    fun (s, c) =>
    Loot.chooseAffixId e.catalog (e.catalog.pool ⟨s⟩).members c

/-- The failure of rolling from a pool without the affix registry. -/
def poolNeedsRegistry : Fault :=
  Fault.value "AffixPoolGenerator.generate requires the affix database"

/-- The failure of rolling an item without the affix and pool registries. -/
def itemNeedsRegistries : Fault :=
  Fault.value "ItemGenerator.generate requires (affix_db, affix_pool_db)"

/-- The failure of rolling a drop without the affix, pool and item registries. -/
def lootNeedsRegistries : Fault :=
  Fault.value "LootPoolItemGenerator.generate requires (affix_db, affix_pool_db, item_db)"

/-- Rolls an affix from a registered pool. -/
def rollFromPool (e : Engine) (id criteria : Value) (withRegistries : Bool) :
    Except Fault (Option RolledAffix) × Engine :=
  e.drawAfter (do
      let s ← e.catalog.require .affixPool id
      let c ← AffixCriteria.ofRecord criteria
      if !withRegistries then throw poolNeedsRegistry
      pure (s, c)) fun (s, c) =>
    Loot.rollFromPool e.catalog (e.catalog.pool ⟨s⟩).members c

/-- Draws an affix count. -/
def rollCount (e : Engine) (criteria : Value) : Except Fault Value × Engine :=
  e.drawAfter (ItemCriteria.ofRecord criteria) fun c => Loot.rollCount c.weighting

/-- Rolls a registered item. -/
def rollItem (e : Engine) (id criteria : Value) (withRegistries : Bool) :
    Except Fault RolledItem × Engine :=
  e.drawAfter (do
      let s ← e.catalog.require .item id
      let c ← ItemCriteria.ofRecord criteria
      if !withRegistries then throw itemNeedsRegistries
      pure (s, c)) fun (s, c) =>
    Loot.rollItem e.catalog ⟨s⟩ c

/-- Chooses an item id from a registered loot pool. -/
def chooseItemId (e : Engine) (id : Value) : Except Fault (Option Value) × Engine :=
  e.drawAfter (e.catalog.require .lootPool id) fun s =>
    Loot.chooseItemId e.catalog (e.catalog.lootPool ⟨s⟩)

/-- Rolls a drop from a registered loot pool. -/
def rollLoot (e : Engine) (id : Value) (withRegistries : Bool) :
    Except Fault (Option RolledItem) × Engine :=
  e.drawAfter (do
      let s ← e.catalog.require .lootPool id
      if !withRegistries then throw lootNeedsRegistries
      pure s) fun s =>
    Loot.rollLoot e.catalog (e.catalog.lootPool ⟨s⟩)

/-- Applies an edit of the catalog; a failed edit changes nothing. -/
def edit {α : Type} (e : Engine) (f : Catalog → Except Fault (Catalog × α)) :
    Except Fault α × Engine :=
  match f e.catalog with
  | .ok (c, a) => (.ok a, { e with catalog := c })
  | .error err => (.error err, e)

/-- Applies an edit that changes the catalog before it computes its answer: a failure before the
change leaves the catalog as it was, and a failing answer keeps the change. -/
def editThen {α : Type} (e : Engine) (f : Catalog → Except Fault (Catalog × Except Fault α)) :
    Except Fault α × Engine :=
  match f e.catalog with
  | .ok (c, a) => (a, { e with catalog := c })
  | .error err => (.error err, e)

/-- Seeds the engine's source anew with a seed value; a value that cannot seed fails, also for a
script, which is otherwise left as it is, and so is any source for a null seed. -/
def reseed (e : Engine) (seed : Value) : Except Fault Unit × Engine :=
  match seedNumber seed with
  | .ok (some n) => (.ok (), { e with source := e.source.reseed n })
  | .ok none => (.ok (), e)
  | .error f => (.error f, e)

/-- The directory a catalog is saved to. -/
def saveDir : String := "<dir>"

/-- The deepest nesting that saving writes: writing a file shares the budget of a thousand nested
calls with the session, which holds nine of them when the first array opens. -/
def saveDepth : Nat := 991

/-- The deepest nesting that loading a saved catalog back reads: the session holds thirteen nested
calls when the first array opens. -/
def reloadDepth : Nat := 987

/-- Saves the catalog to files, one registry after the other, and loads it back from them: the
file texts, by kind. On success the loaded catalog replaces the old one; a failure keeps the old
one. -/
def saveReload (e : Engine) : Except Fault (List (Kind × String)) × Engine :=
  let saved : Except Fault (List (Kind × String) × Catalog) := do
    let texts ← Catalog.kinds.mapM fun k => do pure (k, ← e.catalog.fileText saveDepth k)
    let c ← Catalog.ofFiles reloadDepth saveDir fun k => (texts.find? (·.1 == k)).map (·.2)
    pure (texts, c)
  match saved with
  | .ok (texts, c) => (.ok texts, { e with catalog := c })
  | .error err => (.error err, e)

end Engine

end Loot
