import Loot.Json.Compare

/-!
# Stats and stat lists

A `StatList` is a sparse total per stat: adding sums a value with the stat's total so far, a total
of zero removes the stat, and a stat keeps the position where it was first added, or goes to the end
when it comes back. A modifier is written as the stat's name and its signed value with six
significant digits (`Health +3`); a list joins its modifiers with `, `.
-/

namespace Loot

open Loot.Json

/-- The numeric stats, in their fixed order. -/
inductive Stat where
  /-- Resolve. -/
  | resolve
  /-- Finesse. -/
  | finesse
  /-- Complexity. -/
  | complexity
  /-- Movement speed. -/
  | moveSpeed
  /-- Health. -/
  | health
  /-- Energy. -/
  | energy
  deriving DecidableEq, Repr, Inhabited

namespace Stat

/-- The name of a stat in records and texts. -/
def name : Stat → String
  | .resolve => "Resolve"
  | .finesse => "Finesse"
  | .complexity => "Complexity"
  | .moveSpeed => "MoveSpeed"
  | .health => "Health"
  | .energy => "Energy"

/-- All stats, in their fixed order. -/
def all : List Stat := [.resolve, .finesse, .complexity, .moveSpeed, .health, .energy]

/-- The stat a value names, asked with `room` calls left; any other value is refused. -/
def ofValue (room : Nat) (v : Value) : Except Fault Stat := v.enumOf "Stat" all name room

end Stat

/-- A value for a stat. -/
structure Modifier where
  /-- The stat. -/
  stat : Stat
  /-- The value. -/
  value : Float

/-- A modifier as text: name, sign for values from zero on, six-digit value. -/
def Modifier.text (m : Modifier) : String :=
  m.stat.name ++ " " ++ (if m.value >= 0 then "+" else "") ++ Decimal.generalText m.value

/-- Totals per stat, in the order the stats were added; no total is zero. -/
structure StatList where
  /-- The stats and their totals, in order. -/
  entries : List (Stat × Float)
  deriving Inhabited

namespace StatList

/-- The list without stats. -/
def empty : StatList := ⟨[]⟩

/-- The total of a stat, if present. -/
def get? (l : StatList) (s : Stat) : Option Float :=
  (l.entries.find? (·.1 == s)).map (·.2)

/-- Adds a value to a stat: the new total replaces the old one in place, is appended for a new
stat, and removes the stat when it is zero. -/
def add (l : StatList) (s : Stat) (v : Float) : StatList :=
  let total := (l.get? s).getD 0.0 + v
  if total == 0 then ⟨l.entries.filter (·.1 != s)⟩
  else if l.entries.any (·.1 == s) then
    ⟨l.entries.map fun e => if e.1 == s then (s, total) else e⟩
  else ⟨l.entries ++ [(s, total)]⟩

/-- Adds every entry of `other`, in order. -/
def addAll (l other : StatList) : StatList :=
  other.entries.foldl (fun acc e => acc.add e.1 e.2) l

/-- The list of a sequence of modifiers, added in order to the empty list. -/
def ofModifiers (ms : List Modifier) : StatList :=
  ms.foldl (fun l m => l.add m.stat m.value) empty

/-- All lists added, in order, into one running list. -/
def combine (ls : List StatList) : StatList :=
  ls.foldl addAll empty

/-- The sum of two lists: both combined, the first one first. -/
def append (a b : StatList) : StatList := combine [a, b]

/-- The modifiers, in order. -/
def mods (l : StatList) : List Modifier := l.entries.map fun e => ⟨e.1, e.2⟩

/-- The modifier texts joined by a comma and a space. -/
def text (l : StatList) : String := ", ".intercalate (l.mods.map Modifier.text)

/-- The number of stats present. -/
def size (l : StatList) : Nat := l.entries.length

/-- Whether a stat is present. -/
def contains (l : StatList) (s : Stat) : Bool := l.entries.any (·.1 == s)

/-- The record of a list: an object from stat names to totals, in order. -/
def toValue (l : StatList) : Value := .obj (l.entries.map fun e => (e.1.name, .float e.2))

/-- Reads a record of totals: each member's name must be a stat and its value a number or a
numeral; the values are added in member order. -/
def ofValue (raw : Value) : Except Fault StatList := do
  let ms ← raw.entries
  ms.foldlM (fun l m => do
    -- a key is a string, whose literal takes a single call below the lookup's three
    let s ← Stat.ofValue 4 (.str m.1)
    let v ← m.2.toFloat
    pure (l.add s v)) empty

/-- Whether two lists hold the same stats with equal totals, in any order. -/
def equiv (a b : StatList) : Bool :=
  a.size == b.size && a.entries.all fun e => match b.get? e.1 with
    | some v => v == e.2
    | none => false

end StatList

end Loot

namespace Loot.StatList

open Loot.Json

/-- A value added to a total: a number, or a boolean as one or zero; anything else cannot be
added to a double. -/
def addend (v : Value) : Except Fault Float :=
  match v with
  | .int n => Num.intToFloat n
  | .bool b => .ok (if b then 1.0 else 0.0)
  | .float x => .ok x
  | other => .error (Fault.type ("unsupported operand type(s) for +: 'float' and '" ++
      other.kindName ++ "'"))

/-- The list of modifiers given as a value, read with `room` calls left: whatever iterating it
yields is taken apart into a stat name and a value, and each modifier is read and added before
the next one is taken apart. -/
def ofModifierValues (room : Nat) (v : Value) : Except Fault StatList := do
  (← v.elements).foldlM (fun l m => do
    let (name, x) ← m.pair
    let s ← Stat.ofValue room name
    pure (l.add s (← addend x))) empty

end Loot.StatList
