/-!
# Doubles as exact binary fractions

Every finite double is exactly `(-1)^neg · m · 2^q` for a natural significand `m` and an integer
exponent `q`. Printing a double and comparing it with an integer both work on this form in exact
natural-number arithmetic, so no step depends on the runtime's own formatting or conversions.

The decoding follows the binary64 layout: one sign bit, eleven exponent bits, fifty-two fraction
bits. An all-ones exponent marks an infinity (zero fraction) or not-a-number; an all-zeros
exponent marks a subnormal value, whose significand has no hidden bit.
-/

namespace Loot.Decimal

-- Powers of naturals and integers are the core's, whatever other power instances are in scope;
-- literal exponents are typed, so that no default instance chooses another.
attribute [local instance (2000)] instPowNat

/-- What a double is: not a number, an infinity, or a finite value with its exact parts. -/
inductive Binary where
  /-- Not a number. -/
  | nan
  /-- An infinity, negative when `neg` holds. -/
  | inf (neg : Bool)
  /-- The value `(-1)^neg · m · 2^q`; a zero significand is a signed zero. -/
  | finite (neg : Bool) (m : Nat) (q : Int)
  deriving Repr, DecidableEq

/-- Splits a double into its class, sign, significand and exponent. -/
def Binary.ofFloat (x : Float) : Binary :=
  let bits := x.toBits.toNat
  let neg := bits / 2 ^ (63 : Nat) % 2 == 1
  let e := bits / 2 ^ (52 : Nat) % 2 ^ (11 : Nat)
  let f := bits % 2 ^ (52 : Nat)
  if e == 2047 then
    if f == 0 then .inf neg else .nan
  else if e == 0 then .finite neg f (-1074)
  else .finite neg (f + 2 ^ (52 : Nat)) (Int.ofNat e - 1075)

/-- The number of decimal digits of `n`; zero has none. -/
def digitCount (n : Nat) : Nat :=
  if n = 0 then 0 else (Nat.toDigits 10 n).length

/-- Compares `a · 10^e` with `b · 2^p` exactly, by moving every negative power to the other side. -/
def cmpScaled (a : Nat) (e : Int) (b : Nat) (p : Int) : Ordering :=
  compare (a * 10 ^ e.toNat * 2 ^ (-p).toNat) (b * 2 ^ p.toNat * 10 ^ (-e).toNat)

/-- The least `k` with `m · 2^q < 10^k`, for a positive significand: the position of the decimal
point in front of the value's first digit. -/
def magnitude (m : Nat) (q : Int) : Int :=
  let num := m * 2 ^ q.toNat
  let den := 2 ^ (-q).toNat
  if den ≤ num then digitCount (num / den)
  else 1 - digitCount ((den + num - 1) / num - 1)

/-- `m · 2^q` divided by `10^e`, as a quotient and remainder over a common denominator. -/
def scaledDiv (m : Nat) (q e : Int) : Nat × Nat × Nat :=
  let num := m * 2 ^ q.toNat * 10 ^ (-e).toNat
  let den := 2 ^ (-q).toNat * 10 ^ e.toNat
  (num / den, num % den, den)

/-- Compares a double's magnitude with an integer's, exactly. -/
def cmpInt (m : Nat) (q : Int) (n : Nat) : Ordering :=
  compare (m * 2 ^ q.toNat) (n * 2 ^ (-q).toNat)

end Loot.Decimal
