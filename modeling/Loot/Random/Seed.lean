import Loot.Random.Sha512
import Loot.Json.Coerce

/-!
# Seeds

A source is seeded with a value, first turned into a natural number whose 32-bit words are the
twister's key: an integer gives its magnitude, a boolean one or zero, a double its hash as an
unsigned 64-bit number, and a string its UTF-8 bytes followed by their SHA-512 digest. Null asks
for a seed from outside the program, which a catalog does not have; any other value is refused.
-/

namespace Loot.Random

open Loot.Json

-- Powers of naturals and integers are the core's, whatever other power instances are in scope;
-- literal exponents are typed, so that no default instance chooses another.
attribute [local instance (2000)] instPowNat

/-- The prime modulus of hashes, `2^61 - 1`. -/
def hashModulus : Nat := 2 ^ (61 : Nat) - 1

/-- The hash of a double, as the seeding reads it. A not-a-number has no hash that a record can
rely on, and is taken as zero. -/
def floatHash (x : Float) : Int :=
  match Decimal.Binary.ofFloat x with
  | .nan => 0
  | .inf neg => if neg then -314159 else 314159
  | .finite neg m q =>
    let a : Int := m % hashModulus * 2 ^ (q % 61).toNat % hashModulus
    let h := if neg then -a else a
    if h = -1 then -2 else h

/-- The number of a big-endian byte string. -/
def bigEndian (bs : List UInt8) : Nat :=
  bs.foldl (fun acc b => acc * 256 + b.toNat) 0

/-- The seed number of a value; `none` for null. -/
def seedNumber : Value → Except Fault (Option Nat)
  | .null => .ok none
  | .int n => .ok (some n.natAbs)
  | .bool b => .ok (some (if b then 1 else 0))
  | .float x => .ok (some (floatHash x % 2 ^ (64 : Nat)).toNat)
  | .str s =>
    match s.encode with
    | .ok text =>
      let bytes := text.toUTF8.toList
      .ok (some (bigEndian (bytes ++ Sha512.digest bytes)))
    | .error run => .error (.unencodable run)
  | _ => .error (Fault.type
      "The only supported seed types are: None,\nint, float, str, bytes, and bytearray.")

end Loot.Random
