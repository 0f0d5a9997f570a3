import Loot.Json.Quote
import Loot.Decimal.Reading

/-!
# Numbers

A `Num` is an integer of any size or a double. Two integers add and multiply exactly; once a double
takes part the integer is turned into the nearest double, which fails when it is too large.
Comparisons are exact, and a not-a-number compares false with everything. `roundTo` rounds halves
away from zero by scaling with `10^places`.
-/

namespace Loot

open Decimal

-- Powers of naturals and integers are the core's, whatever other power instances are in scope.
attribute [local instance (2000)] instPowNat

/-- An integer of any size or a double. -/
inductive Num where
  /-- An integer. -/
  | int (n : Int)
  /-- A double. -/
  | float (x : Float)
  deriving Inhabited

namespace Num

/-- The name of a number's kind, as error messages give it. -/
def kindName : Num → String
  | .int _ => "int"
  | .float _ => "float"

/-- The double nearest to an integer; an integer whose nearest double would be infinite fails. -/
def intToFloat (n : Int) : Except Fault Float :=
  let x := Float.ofInt n
  if x.isInf then .error Fault.intTooLarge else .ok x

/-- The nearest double. -/
def toFloat : Num → Except Fault Float
  | .int n => intToFloat n
  | .float x => .ok x

/-- The exact integer value of a finite double, rounded toward zero. -/
def truncFloat (x : Float) : Except Fault Int :=
  match Binary.ofFloat x with
  | .nan => .error (Fault.value "cannot convert float NaN to integer")
  | .inf _ => .error (.builtin .overflow "cannot convert float infinity to integer")
  | .finite neg m q =>
    let mag : Int := if q ≥ 0 then m * 2 ^ q.toNat else m / 2 ^ (-q).toNat
    .ok (if neg then -mag else mag)

/-- The sum: exact for two integers, a double otherwise. -/
def add : Num → Num → Except Fault Num
  | .int a, .int b => .ok (.int (a + b))
  | .float a, .float b => .ok (.float (a + b))
  | .int a, .float b => return .float ((← intToFloat a) + b)
  | .float a, .int b => return .float (a + (← intToFloat b))

/-- The product: exact for two integers, a double otherwise. -/
def mul : Num → Num → Except Fault Num
  | .int a, .int b => .ok (.int (a * b))
  | .float a, .float b => .ok (.float (a * b))
  | .int a, .float b => return .float ((← intToFloat a) * b)
  | .float a, .int b => return .float (a * (← intToFloat b))

/-- Compares a double with an integer exactly; `none` for a not-a-number. -/
def cmpFloatInt (x : Float) (n : Int) : Option Ordering :=
  match Binary.ofFloat x with
  | .nan => none
  | .inf neg => some (if neg then .lt else .gt)
  | .finite neg m q =>
    let mag := cmpInt m q n.natAbs
    if m = 0 then some (compare 0 n)
    else if neg then
      if n ≥ 0 then some .lt else some mag.swap
    else if n ≤ 0 then some .gt else some mag

/-- Whether a number is below zero. -/
def isNeg : Num → Bool
  | .int n => n < 0
  | .float x => x < 0

/-- Whether a number is above zero. -/
def isPos : Num → Bool
  | .int n => n > 0
  | .float x => x > 0

/-- Whether a number exceeds an integer, compared exactly. -/
def gtInt : Num → Int → Bool
  | .int a, n => a > n
  | .float x, n => cmpFloatInt x n == some .gt

/-- Whether a number is zero. -/
def isZero : Num → Bool
  | .int n => n == 0
  | .float x => x == 0

/-- The magnitude. -/
def abs : Num → Num
  | .int n => .int n.natAbs
  | .float x => .float x.abs

/-- Whether the sign bit is set: negative integers and negative doubles, `-0.0` included. -/
def signBit : Num → Bool
  | .int n => n < 0
  | .float x => x.toBits >>> 63 == 1

/-- The text of a number as messages give it. -/
def text : Num → String
  | .int n => toString n
  | .float x => shortText x

/-- The scale `10^places`: an integer for places from zero on, else the double nearest to it. -/
def scaleOf : Num → Except Fault Num
  | .int p =>
    if p ≥ 0 then .ok (.int (10 ^ p.toNat))
    else return .float (Float.pow 10.0 (← intToFloat p))
  | .float p =>
    let x := Float.pow 10.0 p
    if x.isInf && !p.isInf then .error (.builtin .overflow "(34, 'Numerical result out of range')")
    else .ok (.float x)

/-- A double divided by a number; a zero divisor fails. -/
def divide (x : Float) (d : Num) : Except Fault Float := do
  let y ← d.toFloat
  if y == 0 then .error (.builtin .zeroDivision "float division by zero") else .ok (x / y)

/-- Rounds `v` to `places` decimal places, halves away from zero. -/
def roundTo (v places : Num) : Except Fault Float := do
  let scale ← scaleOf places
  let scaled ← v.abs.mul scale
  let lifted ← (scaled.add (.float 0.5)) >>= toFloat
  let whole ← truncFloat lifted.floor
  let mag ← intToFloat whole
  divide (if v.signBit then -mag else mag) scale

end Num

end Loot
