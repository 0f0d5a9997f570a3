/-!
# SHA-512

The SHA-512 digest of a byte string, as the Secure Hash Standard defines it: the message is
padded with a one bit, zeros, and its length in bits as a 128-bit number, to a multiple of 128
bytes; each block is expanded to 80 words and mixed into eight words of state in 80 rounds; the
digest is the final state, each word written big-endian.
-/

namespace Loot.Random.Sha512

-- Powers of naturals and integers are the core's, whatever other power instances are in scope.
attribute [local instance (2000)] instPowNat

/-- The initial state: the first 64 bits of the fractional parts of the square roots of the
first eight primes. -/
def initial : List UInt64 := [
  0x6a09e667f3bcc908, 0xbb67ae8584caa73b, 0x3c6ef372fe94f82b, 0xa54ff53a5f1d36f1,
  0x510e527fade682d1, 0x9b05688c2b3e6c1f, 0x1f83d9abfb41bd6b, 0x5be0cd19137e2179]

/-- The round constants: the first 64 bits of the fractional parts of the cube roots of the
first eighty primes. -/
def roundConstants : Array UInt64 := #[
  0x428a2f98d728ae22, 0x7137449123ef65cd, 0xb5c0fbcfec4d3b2f, 0xe9b5dba58189dbbc,
  0x3956c25bf348b538, 0x59f111f1b605d019, 0x923f82a4af194f9b, 0xab1c5ed5da6d8118,
  0xd807aa98a3030242, 0x12835b0145706fbe, 0x243185be4ee4b28c, 0x550c7dc3d5ffb4e2,
  0x72be5d74f27b896f, 0x80deb1fe3b1696b1, 0x9bdc06a725c71235, 0xc19bf174cf692694,
  0xe49b69c19ef14ad2, 0xefbe4786384f25e3, 0x0fc19dc68b8cd5b5, 0x240ca1cc77ac9c65,
  0x2de92c6f592b0275, 0x4a7484aa6ea6e483, 0x5cb0a9dcbd41fbd4, 0x76f988da831153b5,
  0x983e5152ee66dfab, 0xa831c66d2db43210, 0xb00327c898fb213f, 0xbf597fc7beef0ee4,
  0xc6e00bf33da88fc2, 0xd5a79147930aa725, 0x06ca6351e003826f, 0x142929670a0e6e70,
  0x27b70a8546d22ffc, 0x2e1b21385c26c926, 0x4d2c6dfc5ac42aed, 0x53380d139d95b3df,
  0x650a73548baf63de, 0x766a0abb3c77b2a8, 0x81c2c92e47edaee6, 0x92722c851482353b,
  0xa2bfe8a14cf10364, 0xa81a664bbc423001, 0xc24b8b70d0f89791, 0xc76c51a30654be30,
  0xd192e819d6ef5218, 0xd69906245565a910, 0xf40e35855771202a, 0x106aa07032bbd1b8,
  0x19a4c116b8d2d0c8, 0x1e376c085141ab53, 0x2748774cdf8eeb99, 0x34b0bcb5e19b48a8,
  0x391c0cb3c5c95a63, 0x4ed8aa4ae3418acb, 0x5b9cca4f7763e373, 0x682e6ff3d6b2b8a3,
  0x748f82ee5defb2fc, 0x78a5636f43172f60, 0x84c87814a1f0ab72, 0x8cc702081a6439ec,
  0x90befffa23631e28, 0xa4506cebde82bde9, 0xbef9a3f7b2c67915, 0xc67178f2e372532b,
  0xca273eceea26619c, 0xd186b8c721c0c207, 0xeada7dd6cde0eb1e, 0xf57d4f7fee6ed178,
  0x06f067aa72176fba, 0x0a637dc5a2c898a6, 0x113f9804bef90dae, 0x1b710b35131c471b,
  0x28db77f523047d84, 0x32caab7b40c72493, 0x3c9ebe0a15c9bebc, 0x431d67c49c100d4c,
  0x4cc5d4becb3e42b6, 0x597f299cfc657e2a, 0x5fcb6fab3ad6faec, 0x6c44198c4a475817]

/-- Rotation to the right by `n` bits. -/
def rotr (x : UInt64) (n : UInt64) : UInt64 := (x >>> n) ||| (x <<< (64 - n))

/-- The word of eight bytes, the first the most significant. -/
def wordOf (bs : List UInt8) : UInt64 :=
  bs.foldl (fun acc b => (acc <<< 8) ||| b.toUInt64) 0

/-- The eight bytes of a word, the most significant first. -/
def bytesOf (w : UInt64) : List UInt8 :=
  (List.range 8).reverse.map fun i => (w >>> (8 * i).toUInt64).toUInt8

/-- The words of a list of bytes, eight bytes each; the length is a multiple of eight. -/
def wordsOf : List UInt8 → List UInt64
  | b0 :: b1 :: b2 :: b3 :: b4 :: b5 :: b6 :: b7 :: rest =>
    wordOf [b0, b1, b2, b3, b4, b5, b6, b7] :: wordsOf rest
  | _ => []

/-- The message schedule of a block: its 16 words, extended to 80. -/
def schedule (block : List UInt64) : Array UInt64 :=
  (List.range 64).foldl (fun w t =>
    let t := t + 16
    let a := w[t - 15]?.getD 0
    let b := w[t - 2]?.getD 0
    let s0 := rotr a 1 ^^^ rotr a 8 ^^^ (a >>> 7)
    let s1 := rotr b 19 ^^^ rotr b 61 ^^^ (b >>> 6)
    w.push (s1 + (w[t - 7]?.getD 0) + s0 + (w[t - 16]?.getD 0))) block.toArray

/-- The eight words of state mixed with one block. -/
def compress (state : List UInt64) (block : List UInt64) : List UInt64 :=
  let w := schedule block
  let round := fun (v : List UInt64) (t : Nat) =>
    match v with
    | [a, b, c, d, e, f, g, h] =>
      let s1 := rotr e 14 ^^^ rotr e 18 ^^^ rotr e 41
      let ch := (e &&& f) ^^^ (~~~e &&& g)
      let t1 := h + s1 + ch + (roundConstants[t]?.getD 0) + (w[t]?.getD 0)
      let s0 := rotr a 28 ^^^ rotr a 34 ^^^ rotr a 39
      let maj := (a &&& b) ^^^ (a &&& c) ^^^ (b &&& c)
      [t1 + s0 + maj, a, b, c, d + t1, e, f, g]
    | other => other
  let mixed := (List.range 80).foldl round state
  (state.zip mixed).map fun (x, y) => x + y

/-- The message padded to a multiple of 128 bytes: a one bit, zeros, and the length in bits. -/
def pad (msg : List UInt8) : List UInt8 :=
  let n := msg.length
  let zeros := (111 + 128 - n % 128) % 128
  let bits := 8 * n
  msg ++ [0x80] ++ List.replicate zeros 0 ++
    (List.range 16).reverse.map fun i => (bits / 256 ^ i % 256).toUInt8

/-- Splits words into blocks of sixteen. -/
def blocks (ws : List UInt64) : List (List UInt64) :=
  go ws (ws.length + 1)
where
  /-- Takes blocks while words remain, for at most `fuel` blocks. -/
  go (ws : List UInt64) : Nat → List (List UInt64)
    | 0 => []
    | fuel + 1 => if ws.isEmpty then [] else ws.take 16 :: go (ws.drop 16) fuel

/-- The SHA-512 digest of a byte string: 64 bytes. -/
def digest (msg : List UInt8) : List UInt8 :=
  ((blocks (wordsOf (pad msg))).foldl compress initial).flatMap bytesOf

end Loot.Random.Sha512
