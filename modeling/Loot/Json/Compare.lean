import Loot.Json.Coerce

/-!
# Comparing values

Records may hold a value of any kind where a number or an id is meant. Numbers are ordered exactly
against each other, a not-a-number against nothing, and asking to order a number with another
kind fails. Equality as sets and registries use it holds between equal numbers, equal strings, two
nulls and two not-a-numbers; a list or an object cannot be a key. The module also gives truthiness,
list indexing and counts of repetitions.
-/

namespace Loot

open Loot.Json

-- Powers of naturals and integers are the core's, whatever other power instances are in scope;
-- literal exponents are typed, so that no default instance chooses another.
attribute [local instance (2000)] instPowNat

/-- How two numbers compare, exactly; `none` when either is a not-a-number. -/
def Num.compare? : Num → Num → Option Ordering
  | .int a, .int b => some (compare a b)
  | .float x, .int n => Num.cmpFloatInt x n
  | .int n, .float x => (Num.cmpFloatInt x n).map Ordering.swap
  | .float x, .float y =>
    if x < y then some .lt else if x == y then some .eq else if y < x then some .gt else none

namespace Json

/-- An order comparison between two values. -/
inductive Comparison where
  /-- Below. -/
  | lt
  /-- Below or equal. -/
  | le
  /-- Above. -/
  | gt
  /-- Above or equal. -/
  | ge
  deriving DecidableEq, Repr

namespace Comparison

/-- The operator of a comparison, as messages write it. -/
def symbol : Comparison → String
  | .lt => "<"
  | .le => "<="
  | .gt => ">"
  | .ge => ">="

/-- Whether the comparison holds for an outcome. -/
def holds : Comparison → Ordering → Bool
  | .lt, o => o == .lt
  | .le, o => o != .gt
  | .gt, o => o == .gt
  | .ge, o => o != .lt

/-- The failure of comparing values of two kinds that are not ordered against each other. -/
def unordered (op : Comparison) (left right : String) : Fault :=
  Fault.type ("'" ++ op.symbol ++ "' not supported between instances of '" ++ left ++ "' and '" ++
    right ++ "'")

end Comparison

namespace Value

/-- `v op n`: a number is compared exactly; any other value fails. -/
def compareTo (op : Comparison) (v : Value) (n : Num) : Except Fault Bool :=
  match v.toNum? with
  | some x => .ok ((Num.compare? x n).any op.holds)
  | none => .error (op.unordered v.kindName n.kindName)

/-- `n op v`: a number is compared exactly; any other value fails. -/
def compareFrom (op : Comparison) (n : Num) (v : Value) : Except Fault Bool :=
  match v.toNum? with
  | some x => .ok ((Num.compare? n x).any op.holds)
  | none => .error (op.unordered n.kindName v.kindName)

/-- A value can be a set member or a registry key unless it is a list or an object. -/
def checkKey : Value → Except Fault Unit
  | .arr _ => .error (Fault.type "unhashable type: 'list'")
  | .obj _ => .error (Fault.type "unhashable type: 'dict'")
  | _ => .ok ()

/-- Equality of key values: equal numbers, equal strings, two nulls, two not-a-numbers. -/
def sameKey : Value → Value → Bool
  | .null, .null => true
  | .str a, .str b => a == b
  | .float x, .float y => x == y || (x.isNaN && y.isNaN)
  | a, b => match a.toNum?, b.toNum? with
    | some x, some y => Num.compare? x y == some .eq
    | _, _ => false

/-- The members of a set built from what iterating a value yields; each must be a key value. -/
def keySet (v : Value) : Except Fault (List Value) := do
  let xs ← v.elements
  xs.forM checkKey
  pure xs

/-- Whether a value is in a set of key values; the value must be a key value itself. -/
def memberOf (v : Value) (set : List Value) : Except Fault Bool := do
  v.checkKey
  pure (set.any v.sameKey)

/-- Whether a value counts as true. -/
def truthy : Value → Bool
  | .null => false
  | .bool b => b
  | .int n => n != 0
  | .float x => x != 0
  | .str s => !s.isEmpty
  | .arr xs => !xs.isEmpty
  | .obj ms => !ms.isEmpty

/-- How many times to repeat for a count given as a value: an integer (a boolean as one or zero),
none for a count below one. -/
def repeatCount : Value → Except Fault Nat
  | .int n => .ok n.toNat
  | .bool b => .ok (if b then 1 else 0)
  | v => .error (Fault.type ("'" ++ v.kindName ++ "' object cannot be interpreted as an integer"))

/-- The position an index given as a value names in a list of length `n`: an integer, counted
from the end when negative, that fits in a machine word and falls inside the list. -/
def indexIn (n : Nat) (v : Value) : Except Fault Nat :=
  let position := fun (i : Int) =>
    if i < -(2 ^ (63 : Nat)) ∨ 2 ^ (63 : Nat) ≤ i then
      .error (.builtin .index "cannot fit 'int' into an index-sized integer")
    else
      let j := if i < 0 then i + n else i
      if 0 ≤ j ∧ j < n then .ok j.toNat else .error (.builtin .index "list index out of range")
  match v with
  | .int i => position i
  | .bool b => position (if b then 1 else 0)
  | other => .error (Fault.type ("list indices must be integers or slices, not " ++ other.kindName))

/-- The six-digit text of a number given as a value; an integer is first turned into a double. -/
def generalText : Value → Except Fault String
  | .int n => Decimal.generalText <$> Num.intToFloat n
  | .bool b => .ok (if b then "1" else "0")
  | .float x => .ok (Decimal.generalText x)
  | .str _ => .error (Fault.value "Unknown format code 'g' for object of type 'str'")
  | v => .error (Fault.type ("unsupported format string passed to " ++ v.kindName ++ ".__format__"))

/-- The two parts of a sequence of values taken apart as a pair: it must hold exactly two. -/
def pairOf : List Value → Except Fault (Value × Value)
  | [a, b] => .ok (a, b)
  | xs =>
    if xs.length < 2 then
      .error (Fault.value ("not enough values to unpack (expected 2, got " ++
        toString xs.length ++ ")"))
    else .error (Fault.value "too many values to unpack (expected 2)")

/-- The two parts of a value taken apart as a pair: whatever iterating it yields must be exactly
two things. -/
def pair (v : Value) : Except Fault (Value × Value) :=
  match v with
  | .arr _ | .obj _ | .str _ => do pairOf (← v.elements)
  | other => .error (Fault.type ("cannot unpack non-iterable " ++ other.kindName ++ " object"))

end Value

end Json

end Loot
