/-!
# The Mersenne twister

MT19937 keeps 624 words of 32 bits. A seed is spread over the words by the array initialisation,
each output word is a tempered state word, and after 624 outputs the whole state is twisted at
once. Integer seeds are turned into a key of 32-bit words: the seed's magnitude, least significant
word first, and the key `[0]` for zero.
-/

namespace Loot.Random

-- Powers of naturals and integers are the core's, whatever other power instances are in scope.
attribute [local instance (2000)] instPowNat

/-- The state of the generator: its words, and how many of them have been handed out since the
last twist. -/
structure Twister where
  /-- The 624 state words. -/
  words : Vector UInt32 624
  /-- The index of the next word to hand out; 624 means that a twist comes first. -/
  index : Nat

namespace Twister

/-- The words from a single seed word: each is derived from the one before it. -/
def initWords (s : UInt32) : Vector UInt32 624 :=
  let step := fun (acc : Array UInt32) (i : Nat) =>
    let prev := acc.back?.getD 0
    acc.push ((1812433253 : UInt32) * (prev ^^^ (prev >>> 30)) + i.toUInt32)
  let ws := (List.range' 1 623).foldl step #[s]
  if h : ws.size = 624 then ⟨ws, h⟩ else Vector.replicate 624 0

/-- The position after `i`, wrapping from the last word to the second. -/
def advance (ws : Vector UInt32 624) (i : Fin 624) : Vector UInt32 624 × Fin 624 :=
  if h : i.val + 1 < 624 then (ws, ⟨i.val + 1, h⟩)
  else (ws.set 0 ws[623], ⟨1, by decide⟩)

/-- The word before `i`, cyclically. -/
def prevIndex (i : Fin 624) : Fin 624 := ⟨(i.val + 623) % 624, Nat.mod_lt _ (by decide)⟩

/-- The first pass of the array initialisation: `count` steps mixing in the key words. -/
def mixKey (key : Array UInt32) : Nat → Vector UInt32 624 → Fin 624 → Nat →
    Vector UInt32 624 × Fin 624
  | 0, ws, i, _ => (ws, i)
  | count + 1, ws, i, j =>
    let prev := ws[prevIndex i]
    let k := key[j]?.getD 0
    let ws := ws.set i ((ws[i] ^^^ ((prev ^^^ (prev >>> 30)) * 1664525)) + k + j.toUInt32)
    let (ws, i) := advance ws i
    mixKey key count ws i (if j + 1 ≥ key.size then 0 else j + 1)

/-- The second pass of the array initialisation: `count` steps mixing in the positions. -/
def mixIndex : Nat → Vector UInt32 624 → Fin 624 → Vector UInt32 624 × Fin 624
  | 0, ws, i => (ws, i)
  | count + 1, ws, i =>
    let prev := ws[prevIndex i]
    let ws := ws.set i ((ws[i] ^^^ ((prev ^^^ (prev >>> 30)) * 1566083941)) - i.val.toUInt32)
    let (ws, i) := advance ws i
    mixIndex count ws i

/-- The generator seeded with a key of 32-bit words. -/
def ofKey (key : Array UInt32) : Twister :=
  let ws := initWords 19650218
  let (ws, i) := mixKey key (max 624 key.size) ws ⟨1, by decide⟩ 0
  let (ws, _) := mixIndex 623 ws i
  { words := ws.set 0 0x80000000, index := 624 }

/-- The 32-bit words of a natural number, least significant first. -/
def keyWords (n : Nat) : Array UInt32 :=
  go n (n + 1) #[]
where
  /-- Splits off words while some remain, for at most `fuel` words. -/
  go (n : Nat) : Nat → Array UInt32 → Array UInt32
    | 0, acc => acc
    | fuel + 1, acc => if n = 0 then acc else go (n / 2 ^ 32) fuel (acc.push (n % 2 ^ 32).toUInt32)

/-- The generator seeded with an integer: the key is the words of its magnitude, `[0]` for zero. -/
def seeded (n : Int) : Twister :=
  let key := keyWords n.natAbs
  ofKey (if key.isEmpty then #[0] else key)

/-- One step of the twist at position `i`: the upper bit of word `i` and the lower bits of the
next word, shifted and mixed into the word 397 places on. -/
def twistAt (ws : Vector UInt32 624) (i : Fin 624) : Vector UInt32 624 :=
  let next : Fin 624 := ⟨(i.val + 1) % 624, Nat.mod_lt _ (by decide)⟩
  let far : Fin 624 := ⟨(i.val + 397) % 624, Nat.mod_lt _ (by decide)⟩
  let y := (ws[i] &&& 0x80000000) ||| (ws[next] &&& 0x7fffffff)
  ws.set i (ws[far] ^^^ (y >>> 1) ^^^ (if y &&& 1 == 1 then 0x9908b0df else 0))

/-- The twist of all words, in order. -/
def twist (ws : Vector UInt32 624) : Vector UInt32 624 :=
  (List.finRange 624).foldl twistAt ws

/-- The tempering of an output word. -/
def temper (y : UInt32) : UInt32 :=
  let y := y ^^^ (y >>> 11)
  let y := y ^^^ ((y <<< 7) &&& 0x9d2c5680)
  let y := y ^^^ ((y <<< 15) &&& 0xefc60000)
  y ^^^ (y >>> 18)

/-- The next 32-bit output, and the state after it. -/
def next (t : Twister) : UInt32 × Twister :=
  let (ws, i) := if t.index < 624 then (t.words, t.index) else (twist t.words, 0)
  if h : i < 624 then (temper ws[i], { words := ws, index := i + 1 })
  else (0, { words := ws, index := i })

/-- Fills `count` words from the least significant on, `k` bits still wanted, the next word
going to bit `pos`; the last word keeps only its top `k` bits. -/
def wordBits (t : Twister) : Nat → Nat → Nat → Nat → Nat × Twister
  | 0, _, _, acc => (acc, t)
  | count + 1, k, pos, acc =>
    let (w, t) := t.next
    let w := if k < 32 then w.toNat >>> (32 - k) else w.toNat
    t.wordBits count (k - 32) (pos + 32) (acc + w * 2 ^ pos)

/-- A natural number below `2^k`: the top `k` bits of one word for `k ≤ 32`, else whole words
from the least significant on, the last one cut to the bits still wanted. -/
def bits (t : Twister) (k : Nat) : Nat × Twister :=
  if k = 0 then (0, t)
  else if k ≤ 32 then let (w, t) := t.next; (w.toNat >>> (32 - k), t)
  else t.wordBits ((k - 1) / 32 + 1) k 0 0

/-- A double in `[0, 1)` from 53 random bits: 27 bits of one word above 26 bits of the next. -/
def unit (t : Twister) : Float × Twister :=
  let (a, t) := t.next
  let (b, t) := t.next
  (Float.ofNat ((a.toNat >>> 5) * 67108864 + (b.toNat >>> 6)) / 9007199254740992.0, t)

end Twister

end Loot.Random
