import Loot.Stat
import Loot.Json.Compare

/-!
# Affix definitions

An affix definition names a bonus that an item can carry: where it stands beside the item's name,
and a map of tiers. A tier lists stat ranges, each a closed interval from which a value is drawn,
and may require an item level and fix the number of decimal places of drawn values.

The tier map is kept sorted by tier number, each number once, and a tier is always stored under
its own number: inserting a tier replaces the tier of the same number.
-/

namespace Loot

open Loot.Json

/-- Where an affix stands beside an item's name. -/
inductive Placement where
  /-- Nowhere: a placeholder that a valid definition never has. -/
  | invalid
  /-- Before the name: a prefix. -/
  | before
  /-- After the name: a suffix. -/
  | after
  deriving DecidableEq, Repr, Inhabited

namespace Placement

/-- The name of a placement in records. -/
def name : Placement → String
  | .invalid => "Invalid"
  | .before => "Prefix"
  | .after => "Suffix"

/-- All placements. -/
def all : List Placement := [.invalid, .before, .after]

/-- The placement a value names, asked with `room` calls left; any other value is refused. -/
def ofValue (room : Nat) (v : Value) : Except Fault Placement :=
  v.enumOf "AffixPlacement" all name room

end Placement

/-- A stat and the closed range its values are drawn from. -/
structure StatRange where
  /-- The stat. -/
  stat : Stat
  /-- The least value. -/
  lower : Float
  /-- The greatest value. -/
  upper : Float

namespace StatRange

/-- A range is valid when its ends are in order; a not-a-number end makes it invalid. -/
def valid (r : StatRange) : Bool := r.lower ≤ r.upper

/-- A range as text: `Health [1-3]`, with the ends in six-digit text. -/
def text (r : StatRange) : String :=
  r.stat.name ++ " [" ++ Decimal.generalText r.lower ++ "-" ++ Decimal.generalText r.upper ++ "]"

/-- The text and validity of a range whose ends are given as values, as a range shows them: the
text needs each end's six-digit text, which only numbers have, the lower end first; the range is
valid when its ends, compared exactly, are in order. -/
def describe (stat : Stat) (lower upper : Value) : Except Fault (String × Bool) := do
  let text := stat.name ++ " [" ++ (← lower.generalText) ++ "-" ++ (← upper.generalText) ++ "]"
  let some hi := upper.toNum?
    | throw (Comparison.le.unordered lower.kindName upper.kindName)
  pure (text, ← lower.compareTo .le hi)

/-- The record of a range. -/
def toValue (r : StatRange) : Value :=
  .obj [("stat", .str r.stat.name), ("lower_bound", .float r.lower),
    ("upper_bound", .float r.upper)]

end StatRange

/-- A tier of an affix. -/
structure Tier where
  /-- The tier's number. -/
  number : Int
  /-- The stat ranges, in order. -/
  stats : List StatRange
  /-- The item level an item needs for this tier; none counts as zero. -/
  levelReq : Option Int := none
  /-- The decimal places of drawn values; none counts as zero. -/
  places : Option Int := none

namespace Tier

/-- A tier is valid when its number is positive and it has stats, all of them valid. -/
def valid (t : Tier) : Bool := t.number > 0 && !t.stats.isEmpty && t.stats.all StatRange.valid

/-- The record of a tier; absent requirements and places are left out. -/
def toValue (t : Tier) : Value :=
  Value.record ([("tier", .int t.number), ("stats", .arr (t.stats.map StatRange.toValue))] ++
    (t.levelReq.map fun n => ("item_level_req", Value.int n)).toList ++
    (t.places.map fun n => ("precision_places", Value.int n)).toList)

end Tier

/-- Tiers sorted by number, each number once. -/
structure TierMap where
  /-- The tiers, by ascending number. -/
  tiers : List Tier
  deriving Inhabited

namespace TierMap

/-- The map without tiers. -/
def empty : TierMap := ⟨[]⟩

/-- Inserts a tier into an ascending list: it replaces the tier of its number, or goes before
the first tier with a larger number. -/
def insertTier (t : Tier) : List Tier → List Tier
  | [] => [t]
  | u :: us =>
    if t.number < u.number then t :: u :: us
    else if t.number = u.number then t :: us
    else u :: insertTier t us

/-- Inserts a tier, replacing the tier of the same number. -/
def insert (m : TierMap) (t : Tier) : TierMap := ⟨insertTier t m.tiers⟩

/-- The tiers numbered at most `u`, in order; `u` is compared with each tier's number. -/
def upTo (m : TierMap) (u : Value) : Except Fault (List Tier) :=
  m.tiers.filterM fun t => Value.compareFrom .le (.int t.number) u

/-- The record of a map: an object from tier numbers, as text, to tier records. -/
def toValue (m : TierMap) : Value := .obj (m.tiers.map fun t => (toString t.number, t.toValue))

end TierMap

/-- An affix definition. Its id is an integer when read from a record, and its name a string;
an edit may set either to any value. -/
structure AffixDef where
  /-- The id. -/
  id : Value
  /-- Where the affix stands. -/
  placement : Placement
  /-- The name. -/
  name : Value
  /-- The tiers. -/
  tiers : TierMap
  deriving Inhabited

namespace AffixDef

/-- A definition is valid when its id is positive, its placement is not invalid, and it has
tiers, all of them valid. The id is looked at first, and an id that is not a number cannot be
compared with zero. -/
def valid (d : AffixDef) : Except Fault Bool := do
  let positive ← d.id.compareTo .gt (.int 0)
  pure (positive && d.placement != .invalid && !d.tiers.tiers.isEmpty &&
    d.tiers.tiers.all Tier.valid)

/-- The record of a definition. -/
def toValue (d : AffixDef) : Value :=
  .obj [("id", d.id), ("placement", .str d.placement.name), ("tiers", d.tiers.toValue),
    ("name", d.name)]

end AffixDef

end Loot
