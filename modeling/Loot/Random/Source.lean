import Loot.Random.Twister
import Loot.Random.Seed

/-!
# Random sources and draws

A `Source` is a seeded twister or a script of values handed out one per request. Every draw is
built from `unit`, a double in `[0, 1)`, and `bits k`, a number below `2^k`; on top of them `below`,
`pick`, `uniform` and `guid`. A draw that fails keeps the source as it was at the failure, so the
numbers it consumed stay consumed.
-/

namespace Loot.Random

open Loot.Json

-- Powers of naturals and integers are the core's, whatever other power instances are in scope;
-- literal exponents are typed, so that no default instance chooses another.
attribute [local instance (2000)] instPowNat

/-- Where random numbers come from. -/
inductive Source where
  /-- A seeded twister. -/
  | twister (t : Twister)
  /-- A script: the values still to hand out, and how many were handed out. -/
  | script (values : List Value) (used : Nat)
  deriving Inhabited

/-- A draw: a computation on a random source that may fail, keeping the source at the failure. -/
abbrev Draw := EStateM Fault Source

namespace Source

/-- The source seeded anew with a seed number; a script is left as it is. -/
def reseed (n : Nat) : Source → Source
  | .twister _ => .twister (Twister.seeded n)
  | s => s

/-- The source of a seed number. -/
def ofSeed (n : Nat) : Source := .twister (Twister.seeded n)

/-- The source of a seed value, as `seedNumber` reads it; null stands for a seed from outside
the program, which a catalog does not have, and the seed zero takes its place. -/
def ofSeedValue (v : Value) : Except Fault Source :=
  (fun n => ofSeed (n.getD 0)) <$> seedNumber v

/-- The source of a script. -/
def ofScript (values : List Value) : Source := .script values 0

end Source

/-- The draw that fails with the failure of `x`, or gives its result without drawing. -/
def fromExcept {α : Type} (x : Except Fault α) : Draw α :=
  match x with
  | .ok a => pure a
  | .error e => throw e

/-- A natural number below `2^k`. -/
def bits (k : Nat) : Draw Nat := do
  match ← get with
  | .twister t => let (n, t) := t.bits k; set (Source.twister t); pure n
  | .script (v :: rest) used =>
    set (Source.script rest (used + 1))
    match v with
    | .int n => pure (n % (2 ^ k : Int)).toNat
    | _ => throw .scriptNotInteger
  | .script [] used => throw (.scriptExhausted used)

/-- A double in `[0, 1)`. -/
def unit : Draw Float := do
  match ← get with
  | .twister t => let (x, t) := t.unit; set (Source.twister t); pure x
  | .script (v :: rest) used =>
    set (Source.script rest (used + 1))
    match v.toFloat with
    | .ok x => pure x
    | .error e => throw e
  | .script [] used => throw (.scriptExhausted used)

/-- How many rejected tries `below` allows before it takes a remainder instead. The program's own
loop draws until a try is below `n`, with no bound; the budget makes the loop total without
changing what it draws. A script runs out before its budget does, so on a script the remainder is
never taken (`below_script_stable`). A twister's try is rejected with probability below one half,
so the 1024 rejections in a row that end in the remainder have probability below `2^-1024`. -/
def budget : Source → Nat
  | .twister _ => 1024
  | .script values _ => values.length + 1

/-- Draws `bits k` until the result is below `n`, for at most `fuel` tries; the last try is
taken modulo `n`. -/
def belowTries (n k : Nat) : Nat → Draw Nat
  | 0 => return (← bits k) % n
  | fuel + 1 => do
    let r ← bits k
    if r < n then pure r else belowTries n k fuel

/-- A natural number below `n`, for `n > 0`: `bits` of the bit length of `n`, repeated until
the result is below `n`, for at most the source's `budget` of tries. -/
def below (n : Nat) : Draw Nat := do
  belowTries n (Nat.log2 n + 1) (budget (← get))

/-- An element of a non-empty list, chosen by `below`; `none` for the empty list. -/
def pick {α : Type} (xs : List α) : Draw (Option α) := do
  if xs.isEmpty then pure none
  else return xs[← below xs.length]?

/-- A double between `a` and `b`: `a + (b - a) · unit`. -/
def uniform (a b : Float) : Draw Float := do
  return a + (b - a) * (← unit)

/-- The text of a 128-bit identifier: 32 lower-case hex digits grouped 8-4-4-4-12. -/
def guidText (n : Nat) : String :=
  let ds := (List.range 32).reverse.map fun i => Nat.digitChar (n / 16 ^ i % 16)
  String.ofList (ds.take 8 ++ '-' :: (ds.drop 8).take 4 ++ '-' :: (ds.drop 12).take 4 ++
    '-' :: (ds.drop 16).take 4 ++ '-' :: ds.drop 20)

/-- Sets the version nibble of an identifier to 4 and its variant bits to `10`. -/
def markVersion4 (n : Nat) : Nat :=
  let n := n % 2 ^ (128 : Nat)
  let variantMask := 0xc000 * 2 ^ (48 : Nat)
  let versionMask := 0xf000 * 2 ^ (64 : Nat)
  let n := n - (n &&& variantMask) + 0x8000 * 2 ^ (48 : Nat)
  n - (n &&& versionMask) + 4 * 2 ^ (76 : Nat)

/-- A random version-4 identifier from 128 random bits. -/
def guid : Draw String := do
  return guidText (markVersion4 (← bits 128))

end Loot.Random
