/-!
# Text that may hold lone surrogates

A JSON string is a sequence of code points, and an escape such as `\ud800` writes a surrogate
code point without the partner that would make a character of it. `Chars` holds such a sequence:
each `CodePoint` is a character or a lone surrogate. A sequence without lone surrogates is a
`String`, and every `String` is one.

UTF-8 has no bytes for a surrogate, so encoding a sequence fails at its first stretch of lone
surrogates, and `SurrogateRun` says where that stretch lies in the text being written.
-/

namespace Loot.Text

/-- A code point: a character, or a surrogate that stands alone, given by its offset from
U+D800. -/
inductive CodePoint where
  /-- A character. -/
  | char (c : Char)
  /-- The surrogate U+D800 plus `offset`. -/
  | surrogate (offset : Fin 2048)
  deriving DecidableEq, Inhabited

namespace CodePoint

/-- The number of a code point. -/
def code : CodePoint → Nat
  | .char c => c.toNat
  | .surrogate o => 0xD800 + o.val

/-- The code point of a number below U+110000. -/
def ofNat (n : Nat) : CodePoint :=
  if h : 0xD800 ≤ n ∧ n < 0xE000 then .surrogate ⟨n - 0xD800, by omega⟩ else .char (Char.ofNat n)

/-- Whether a code point is a lone surrogate. -/
def isSurrogate : CodePoint → Bool
  | .char _ => false
  | .surrogate _ => true

end CodePoint

/-- A sequence of code points. -/
structure Chars where
  /-- The code points, in order. -/
  points : List CodePoint
  deriving DecidableEq, Inhabited

/-- A stretch of lone surrogates in a text being encoded: the position of its first surrogate,
the position just after its last, and the code of its first surrogate. -/
structure SurrogateRun where
  /-- Where the stretch starts. -/
  start : Nat
  /-- Where the stretch ends, exclusive. -/
  stop : Nat
  /-- The code of the first surrogate. -/
  first : Nat

/-- The first stretch of lone surrogates in a list of code points, the first counted at `p`. -/
def firstRun : List CodePoint → Nat → Option SurrogateRun
  | [], _ => none
  | .char _ :: r, p => firstRun r (p + 1)
  | .surrogate o :: r, p =>
    some ⟨p, p + 1 + (r.takeWhile CodePoint.isSurrogate).length, 0xD800 + o.val⟩

/-- The characters of a list of code points that holds no lone surrogate. -/
def charsOf? : List CodePoint → Option (List Char)
  | [] => some []
  | .char c :: r => (charsOf? r).map (c :: ·)
  | .surrogate _ :: _ => none

/-- Encodes code points that follow `offset` others in the text being written: their characters,
or the first stretch of lone surrogates, with positions counted from the start of the text. -/
def encodePoints (offset : Nat) (ps : List CodePoint) : Except SurrogateRun String :=
  match charsOf? ps with
  | some cs => .ok (String.ofList cs)
  | none => .error ((firstRun ps offset).getD ⟨offset, offset, 0⟩)

namespace Chars

/-- The code points of a string. -/
def ofString (s : String) : Chars := ⟨s.toList.map .char⟩

instance : Coe String Chars := ⟨ofString⟩

instance : Append Chars := ⟨fun a b => ⟨a.points ++ b.points⟩⟩

/-- The number of code points. -/
def length (t : Chars) : Nat := t.points.length

/-- Whether there are no code points. -/
def isEmpty (t : Chars) : Bool := t.points.isEmpty

/-- The string of a sequence that holds no lone surrogate. -/
def toString? (t : Chars) : Option String := String.ofList <$> charsOf? t.points

/-- The characters a numeral reader sees: a lone surrogate is neither a digit, a sign nor a blank,
and `?` stands for it. -/
def numeralChars (t : Chars) : List Char :=
  t.points.map fun
    | .char c => c
    | .surrogate _ => '?'

/-- The text as UTF-8 can hold it, or its first stretch of lone surrogates. -/
def encode (t : Chars) : Except SurrogateRun String := encodePoints 0 t.points

end Chars

end Loot.Text
