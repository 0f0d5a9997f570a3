import Loot.Decimal.Binary

/-!
# Decimal digits of a double

`shortest` picks the fewest significant digits that read back as the double, the nearer of two
candidates: the doubles that read back as `m · 2^q` form an interval reaching halfway to each
neighbour, and testing the value's two neighbours on the grids of 1 to 17 digits finds the shortest
form. `rounded` gives exactly `p` significant digits, ties to an even last digit.
-/

namespace Loot.Decimal

-- Powers of naturals and integers are the core's, whatever other power instances are in scope;
-- literal exponents are typed, so that no default instance chooses another.
attribute [local instance (2000)] instPowNat

/-- The reals that read back as `m · 2^q`, in units of `2^(q-2)`: from `lo` to `hi`, with both
ends included when `closed` holds. -/
structure Interval where
  /-- The lower end. -/
  lo : Nat
  /-- The upper end. -/
  hi : Nat
  /-- Whether the ends read back as the value itself. -/
  closed : Bool

/-- The reading interval of `m · 2^q`. Below a power of two that is not the least normal
exponent, the gap to the neighbour beneath is half as wide. -/
def Interval.around (m : Nat) (q : Int) : Interval :=
  let narrow := m == 2 ^ (52 : Nat) && decide (q > -1074)
  { lo := if narrow then 4 * m - 1 else 4 * m - 2, hi := 4 * m + 2, closed := m % 2 == 0 }

/-- Whether `d · 10^e` reads back as the double whose interval this is. -/
def Interval.contains (iv : Interval) (q : Int) (d : Nat) (e : Int) : Bool :=
  let below := cmpScaled d e iv.lo (q - 2)
  let above := cmpScaled d e iv.hi (q - 2)
  if iv.closed then below != .lt && above != .gt else below == .gt && above == .lt

/-- Of the grid points `c · 10^e` and `(c + 1) · 10^e` around `m · 2^q`, the nearer one; an exact
tie goes to the even one. -/
def nearer (m : Nat) (q : Int) (c : Nat) (e : Int) : Nat :=
  match cmpScaled (2 * c + 1) e (2 * m) q with
  | .gt => c
  | .lt => c + 1
  | .eq => if c % 2 == 0 then c else c + 1

/-- Tries the grids of `n`, `n + 1`, … significant digits, for at most `fuel` grids; the last
grid tried answers with its nearer neighbour. -/
def shortestFrom (m : Nat) (q k : Int) (iv : Interval) : Nat → Nat → Nat × Int
  | 0, n => let e := k - n; (nearer m q (scaledDiv m q e).1 e, e)
  | fuel + 1, n =>
    let e := k - n
    let c := (scaledDiv m q e).1
    match iv.contains q c e, iv.contains q (c + 1) e with
    | true, true => (nearer m q c e, e)
    | true, false => (c, e)
    | false, true => (c + 1, e)
    | false, false => shortestFrom m q k iv fuel (n + 1)

/-- Removes trailing zero digits, moving them into the exponent. -/
def trimZeros : Nat → Nat → Int → Nat × Int
  | 0, c, e => (c, e)
  | fuel + 1, c, e => if c ≠ 0 ∧ c % 10 = 0 then trimZeros fuel (c / 10) (e + 1) else (c, e)

/-- The fewest significant digits that read back as `m · 2^q` (for `m > 0`), nearest first,
without trailing zeros. Seventeen digits always suffice for a double. -/
def shortest (m : Nat) (q : Int) : Nat × Int :=
  let (c, e) := shortestFrom m q (magnitude m q) (Interval.around m q) 16 1
  trimZeros (digitCount c) c e

/-- `m · 2^q` (for `m > 0`) rounded to `p` significant digits, ties to an even last digit. A carry
into a new digit moves the exponent up by one. -/
def rounded (m : Nat) (q : Int) (p : Nat) : Nat × Int :=
  let e := magnitude m q - p
  let (c, r, den) := scaledDiv m q e
  let c := if 2 * r > den ∨ (2 * r = den ∧ c % 2 = 1) then c + 1 else c
  if c = 10 ^ p then (10 ^ (p - 1), e + 1) else (c, e)

end Loot.Decimal
