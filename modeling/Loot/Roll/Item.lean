import Loot.Roll.Affix

/-!
# Rolling items

An item with fixed affixes rolls each of them once and keeps those with an eligible tier. Any other
item draws a count by weight, merges the members of its pools, and draws that many times from them,
each draw excluding the ids drawn before. Every item then gets a random identifier. Its rarity is
`fabled` with fixed affixes, and otherwise follows its number of affixes, up to six.
-/

namespace Loot

open Loot.Json Loot.Random

/-- The default count weighting: one affix is the most common, six the rarest. -/
def defaultWeighting : List (List Value) :=
  [(1, 500), (2, 300), (3, 100), (4, 20), (5, 5), (6, 1)].map fun (n, w) => [.int n, .int w]

/-- Conditions on the items rolled. -/
structure ItemCriteria where
  /-- Affix counts and their weights: each entry as what iterating it yields, taken apart into a
  count and a weight only when a count is drawn. -/
  weighting : List (List Value) := defaultWeighting
  /-- The conditions on each affix drawn; none is an absent set of conditions, which a draw from
  pools cannot use. -/
  affixCriteria : Option AffixCriteria := some {}
  deriving Inhabited

/-- A rolled item. -/
structure RolledItem where
  /-- The identifier. -/
  guid : Text.Chars
  /-- The definition. -/
  item : Ref .item
  /-- The affixes, in order. -/
  affixes : List RolledAffix
  deriving Inhabited

/-- How rare an item is. -/
inductive Rarity where
  /-- Up to two affixes. -/
  | common
  /-- Three or four affixes. -/
  | uncommon
  /-- Five or six affixes. -/
  | rare
  /-- Fixed affixes. -/
  | fabled
  deriving DecidableEq, Repr

/-- The name of a rarity. -/
def Rarity.name : Rarity → String
  | .common => "common"
  | .uncommon => "uncommon"
  | .rare => "rare"
  | .fabled => "fabled"

namespace RolledItem

/-- The rarity of a rolled item. -/
def rarity (c : Catalog) (i : RolledItem) : Except Fault Rarity :=
  let n := i.affixes.length
  if !(c.item i.item).fixed.isEmpty then .ok .fabled
  else if n ≤ 2 then .ok .common
  else if n ≤ 4 then .ok .uncommon
  else if n ≤ 6 then .ok .rare
  else .error (Fault.value ("Abnormal affix count: " ++ toString n))

/-- The text of a rolled item, asked for with `room` calls left: name and classification, then
each affix on a line of its own after a tab. It is written two calls deeper, the name as an
f-string writes it, and each affix's text is asked for three calls below that, from the loop
that joins the lines. -/
def text (room : Nat) (c : Catalog) (i : RolledItem) : Except Fault Text.Chars := do
  let d := c.item i.item
  let name ← d.name.formatted (room - 2)
  i.affixes.foldlM (fun t a => do
      pure (t ++ Text.Chars.ofString "\n\t" ++ (← a.text (room - 5) c)))
    (name ++ Text.Chars.ofString (" (" ++ d.classification.text ++ ")"))

/-- The record of a rolled item; the definition is written as its current id. -/
def toValue (c : Catalog) (i : RolledItem) : Value :=
  Value.record [("guid", .str i.guid), ("item_def_id", (c.item i.item).id),
    ("affixes", .arr (i.affixes.map (RolledAffix.toValue c)))]

/-- The calls left in the reader of a rolled item record, when a session step asks for it. -/
def recordRoom : Nat := 995

/-- Reads a rolled item record: the identifier as text, the definition's id as an integer looked
up in the item registry, then the affixes (none by default). -/
def ofValue (c : Catalog) (raw : Value) : Except Fault RolledItem := do
  let guid ← (← raw.member "guid").text recordRoom
  let slot ← c.require .item (.int (← (← raw.member "item_def_id").toInt))
  let affixes ← (← (← raw.memberOr "affixes" (.arr [])).elements).mapM (RolledAffix.ofValue c)
  pure ⟨guid, ⟨slot⟩, affixes⟩

/-- Whether two rolled items have the same identifier and definition and equal affixes in the
same order. -/
def equiv (a b : RolledItem) : Bool :=
  a.guid == b.guid && a.item == b.item && a.affixes.length == b.affixes.length &&
    (a.affixes.zip b.affixes).all fun p => p.1.equiv p.2

end RolledItem

/-- Draws an affix count by weight: every entry of the weighting is taken apart into a count and
a weight first, then an entry is drawn by the weights; no entry drawn is the count zero. -/
def rollCount (weighting : List (List Value)) : Draw Value := do
  let entries ← fromExcept (weighting.mapM Value.pairOf)
  match ← weightedIndexOf (entries.map (·.2)) with
  | none => pure (.int 0)
  | some i => pure ((entries[i]?.map (·.1)).getD (.int 0))

/-- The members of an item's pools, each pool looked up by its current id. -/
def mergedMembers (c : Catalog) (pools : List (Ref .affixPool)) :
    Except Fault (List (Ref .affix × Value)) :=
  pools.foldlM (fun acc p => do
    let slot ← c.require .affixPool (c.pool p).id
    pure (acc ++ (c.pool ⟨slot⟩).members)) []

/-- Draws `n` affixes from pool members, excluding the ids drawn so far; `acc` holds the affixes
drawn, last first. The id of each affix drawn joins the set of drawn ids once the affix is rolled,
so an id that cannot be a set member fails there. -/
def drawAffixes (c : Catalog) (members : List (Ref .affix × Value)) (base : Option AffixCriteria) :
    Nat → List Value → List RolledAffix → Draw (List RolledAffix)
  | 0, _, acc => pure acc.reverse
  | n + 1, drawn, acc => do
    let some b := base | throw (Fault.noAttribute "NoneType" "disallowed_ids")
    let crit := { b with disallowed := some (b.disallowed.getD [] ++ drawn) }
    match ← rollFromPool c members crit with
    | none => drawAffixes c members base n drawn acc
    | some a =>
      let id := (c.affix a.affix).id
      fromExcept id.checkKey
      drawAffixes c members base n (id :: drawn) (a :: acc)

/-- Rolls the affixes of an item without fixed affixes: the count is drawn, the pools are merged,
and the count must then be an integer. -/
def rollFromPools (c : Catalog) (pools : List (Ref .affixPool)) (crit : ItemCriteria) :
    Draw (List RolledAffix) := do
  let n ← rollCount crit.weighting
  let members ← fromExcept (mergedMembers c pools)
  drawAffixes c members crit.affixCriteria (← fromExcept n.repeatCount) [] []

/-- Rolls each fixed affix once and keeps those with an eligible tier. -/
def rollFixed (c : Catalog) (fixed : List (Ref .affix)) (crit : Option AffixCriteria) :
    Draw (List RolledAffix) := do
  let rolled ← fixed.mapM fun r => rollAffix c r (crit.getD {})
  pure rolled.reduceOption

/-- Rolls an item from its definition. -/
def rollItem (c : Catalog) (r : Ref .item) (crit : ItemCriteria) : Draw RolledItem := do
  let d := c.item r
  let affixes ← if d.fixed.isEmpty then rollFromPools c d.pools crit
    else rollFixed c d.fixed crit.affixCriteria
  pure ⟨Text.Chars.ofString (← guid), r, affixes⟩

/-- Chooses an item id from a loot pool by weight: the current id of the chosen member. -/
def chooseItemId (c : Catalog) (d : LootPoolDef) : Draw (Option Value) := do
  match ← weightedIndexOf (d.members.map (·.2)) with
  | none => pure none
  | some i => pure (d.members[i]?.map fun m => (c.item m.1).id)

/-- Rolls a drop from a loot pool: an item id is chosen, looked up, and rolled with the default
criteria. A chosen id that is null counts as no drop. -/
def rollLoot (c : Catalog) (d : LootPoolDef) : Draw (Option RolledItem) := do
  match ← chooseItemId c d with
  | none | some .null => pure none
  | some id => some <$> rollItem c ⟨← fromExcept (c.require .item id)⟩ {}

/-- Reads item criteria from an object, with `room` calls left: first the affix conditions (absent
when missing or null), then the count weighting (the default when absent), whose entries are
iterated at once, so that the weighting and each entry must be iterable. -/
def ItemCriteria.ofValue (room : Nat) (v : Value) : Except Fault ItemCriteria := do
  let affixCriteria ← match ← v.memberOr "affix_criteria" .null with
    | .null => pure none
    | a => some <$> AffixCriteria.ofValue room a
  let weighting ← match v.field? "affix_count_weighting" with
    | none => pure defaultWeighting
    | some w => (← w.elements).mapM Value.elements
  pure { weighting, affixCriteria }

end Loot
