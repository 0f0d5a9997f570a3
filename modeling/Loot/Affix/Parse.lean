import Loot.Affix.Basic
import Loot.Record

/-!
# Reading affix definitions

An affix record holds `tiers`, `id`, `placement` and an optional `name`, read in that order, so the
first failure in that order is reported; each tier member's key must read as its tier's number, and
a later tier of the same number replaces an earlier one. Each reader takes the calls left where it
is called, and one that stands for a function of its own runs its body one call deeper.
-/

namespace Loot

open Loot.Json

/-- Reads a stat range record. -/
def StatRange.ofValue (room : Nat) (raw : Value) : Except Fault StatRange := do
  let stat ← Stat.ofValue room (← raw.member "stat")
  let lower ← (← raw.member "lower_bound").toFloat
  let upper ← (← raw.member "upper_bound").toFloat
  pure ⟨stat, lower, upper⟩

/-- Reads an optional integer: null is absent. -/
def optionalInt : Value → Except Fault (Option Int)
  | .null => .ok none
  | v => some <$> v.toInt

/-- Reads a tier record; its stat ranges are read in a list of their own, one call deeper than
its body. -/
def Tier.ofValue (room : Nat) (raw : Value) : Except Fault Tier := do
  let levelReq ← raw.memberOr "item_level_req" .null
  let places ← raw.memberOr "precision_places" .null
  let number ← (← raw.member "tier").toInt
  let stats ← (← (← raw.member "stats").elements).mapM (StatRange.ofValue (room - 2))
  let levelReq ← optionalInt levelReq
  let places ← optionalInt places
  pure { number, stats, levelReq, places }

/-- Reads the tiers of an affix record, in member order. -/
def TierMap.ofValue (room : Nat) (raw : Value) : Except Fault TierMap := do
  (← raw.entries).foldlM (fun m entry => do
    let t ← Tier.ofValue room entry.2
    let key ← (Value.str entry.1).toInt
    if key ≠ t.number then
      throw (.builtin .value (Text.Chars.ofString "tier key " ++ entry.1 ++
        Text.Chars.ofString (" does not match tier " ++ toString t.number)))
    pure (m.insert t)) TierMap.empty

/-- Reads an affix record, with the expected failures reported as a malformed record: the id
read, which is the key the definition registers under, and the definition. -/
def AffixDef.ofValue (room : Nat) (raw : Value) : Except Fault (Int × AffixDef) :=
  asMalformed (room - 1) .affix affixExpected raw do
    let tiers ← TierMap.ofValue (room - 1) (← raw.member "tiers")
    let id ← (← raw.member "id").toInt
    let placement ← Placement.ofValue (room - 1) (← raw.member "placement")
    let name ← (← raw.memberOr "name" (.str "")).text (room - 1)
    pure (id, { id := .int id, placement, name := .str name, tiers })

end Loot
