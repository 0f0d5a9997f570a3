import Loot.Json.Value
import Loot.Decimal.Reading

/-!
# Reading JSON text

The reader takes a whole text to one `Value`, or to a `ReadError` naming what it expected and the
character position where it stopped. Beyond JSON's grammar it reads `NaN` and the infinities as
numbers, keeps lone surrogates, lets a repeated key keep its first position and take the last value,
refuses integers of more than 4300 digits, a byte-order mark, and a container that opens deeper than
the caller allows.
-/

namespace Loot.Json

open Loot.Text

/-- Why and where a text is not JSON, or why it cannot be read although it is. -/
inductive ReadError where
  /-- The text is not JSON: what the reader expected or refused, and the position, in characters
  from the start of the text. -/
  | invalid (reason : String) (pos : Nat)
  /-- An integer has more digits than an integer may be read from: its number of digits. -/
  | tooManyDigits (digits : Nat)
  /-- Containers nest deeper than the reader allows: whether the one that opens too deep is an
  object rather than an array. -/
  | tooDeep (object : Bool)

/-- An invalid text with its line and column: the column counts from one after the last line
feed. -/
def renderInvalid (reason : String) (pos : Nat) (doc : List Char) : String :=
  let before := doc.take pos
  let line := before.count '\n' + 1
  let col := (before.reverse.takeWhile (· != '\n')).length + 1
  s!"{reason}: line {line} column {col} (char {pos})"

/-- A step of the reader: a result, the rest of the text and its position, or an error. -/
abbrev Scan (α : Type) := Except ReadError (α × List Char × Nat)

/-- The blanks between tokens. -/
def isSpace (c : Char) : Bool := c == ' ' || c == '\t' || c == '\n' || c == '\r'

/-- Skips blanks. -/
def skipSpace : List Char → Nat → List Char × Nat
  | c :: cs, p => if isSpace c then skipSpace cs (p + 1) else (c :: cs, p)
  | [], p => ([], p)

/-- The value of a hex digit. -/
def hexDigit? (c : Char) : Option Nat :=
  if '0' ≤ c ∧ c ≤ '9' then some (c.toNat - '0'.toNat)
  else if 'a' ≤ c ∧ c ≤ 'f' then some (c.toNat - 'a'.toNat + 10)
  else if 'A' ≤ c ∧ c ≤ 'F' then some (c.toNat - 'A'.toNat + 10)
  else none

/-- The value of four hex digits. -/
def hex4? (a b c d : Char) : Option Nat := do
  return (((← hexDigit? a) * 16 + (← hexDigit? b)) * 16 + (← hexDigit? c)) * 16 + (← hexDigit? d)

/-- The character of a one-letter escape. -/
def escapeChar? : Char → Option Char
  | '"' => some '"'
  | '\\' => some '\\'
  | '/' => some '/'
  | 'b' => some '\x08'
  | 'f' => some '\x0c'
  | 'n' => some '\n'
  | 'r' => some '\r'
  | 't' => some '\t'
  | _ => none

/-- Reads the rest of a string whose opening quote stands at `start`; `p` is the position of the
first character of `cs`, and `acc` holds the code points read so far, last first. -/
def scanString (start : Nat) : List Char → Nat → List CodePoint → Scan Chars
  | [], _, _ => .error (.invalid "Unterminated string starting at" start)
  | '"' :: cs, p, acc => .ok (⟨acc.reverse⟩, cs, p + 1)
  | '\\' :: 'u' :: a :: b :: c :: d :: cs, p, acc =>
    match cs, hex4? a b c d with
    | [], _ => .error (.invalid "Invalid \\uXXXX escape" (p + 1))
    | _, none => .error (.invalid "Invalid \\uXXXX escape" (p + 1))
    | '\\' :: 'u' :: a' :: b' :: c' :: d' :: e :: rest, some hi =>
      if 0xD800 ≤ hi ∧ hi ≤ 0xDBFF then
        match hex4? a' b' c' d' with
        | none => .error (.invalid "Invalid \\uXXXX escape" (p + 7))
        | some lo =>
          if 0xDC00 ≤ lo ∧ lo ≤ 0xDFFF then
            let n := 0x10000 + (hi - 0xD800) * 0x400 + (lo - 0xDC00)
            scanString start (e :: rest) (p + 12) (.char (Char.ofNat n) :: acc)
          else
            scanString start ('\\' :: 'u' :: a' :: b' :: c' :: d' :: e :: rest) (p + 6)
              (CodePoint.ofNat hi :: acc)
      else
        scanString start ('\\' :: 'u' :: a' :: b' :: c' :: d' :: e :: rest) (p + 6)
          (CodePoint.ofNat hi :: acc)
    | more, some n => scanString start more (p + 6) (CodePoint.ofNat n :: acc)
  | '\\' :: 'u' :: _, p, _ => .error (.invalid "Invalid \\uXXXX escape" (p + 1))
  | '\\' :: e :: cs, p, acc =>
    match escapeChar? e with
    | some c => scanString start cs (p + 2) (.char c :: acc)
    | none => .error (.invalid "Invalid \\escape" p)
  | ['\\'], _, _ => .error (.invalid "Unterminated string starting at" start)
  | c :: cs, p, acc =>
    if c.toNat ≤ 0x1F then .error (.invalid "Invalid control character at" p)
    else scanString start cs (p + 1) (.char c :: acc)

/-- Splits the minus off a number: whether there is one, and the rest. -/
def splitMinus : List Char → Bool × List Char
  | '-' :: r => (true, r)
  | r => (false, r)

/-- The digits before a number's point: a lone `0`, as no digit may follow a leading zero, or all
the digits that lead. -/
def wholeDigits : List Char → List Char
  | '0' :: _ => ['0']
  | r => r.takeWhile Char.isDigit

/-- The digits of a fraction at the start of a text: those after a point, none when no digit
follows the point. -/
def fractionDigits : List Char → List Char
  | '.' :: d :: r => if d.isDigit then (d :: r).takeWhile Char.isDigit else []
  | _ => []

/-- An exponent at the start of a text: whether it is negative, its digits and the length of its
text; none when no digit follows the marker and its sign. -/
def exponentPart : List Char → Option (Bool × List Char × Nat)
  | e :: r =>
    if e == 'e' || e == 'E' then
      let (eneg, signLen, r') := match r with
        | '-' :: r' => (true, 1, r')
        | '+' :: r' => (false, 1, r')
        | r' => (false, 0, r')
      let ds := r'.takeWhile Char.isDigit
      if ds.isEmpty then none else some (eneg, ds, 1 + signLen + ds.length)
    else none
  | [] => none

/-- Reads a number at position `p`: an optional minus, `0` or digits without a leading zero, an
optional fraction of at least one digit and an optional exponent of at least one digit. -/
def scanNumber (cs : List Char) (p : Nat) : Scan Value :=
  let (neg, body) := splitMinus cs
  let whole := wholeDigits body
  if whole.isEmpty then .error (.invalid "Expecting value" p)
  else
    let r1 := body.drop whole.length
    let frac := fractionDigits r1
    let r2 := if frac.isEmpty then r1 else r1.drop (frac.length + 1)
    let used :=
      (if neg then 1 else 0) + whole.length + (if frac.isEmpty then 0 else frac.length + 1)
    match exponentPart r2 with
    | none =>
      if frac.isEmpty then
        if whole.length > Decimal.maxIntDigits then .error (.tooManyDigits whole.length)
        else
          let n : Int := Decimal.digitsValue whole
          .ok (.int (if neg then -n else n), r2, p + used)
      else
        let x := Decimal.toFloat (Decimal.digitsValue (whole ++ frac)) (-(frac.length : Int))
        .ok (.float (if neg then -x else x), r2, p + used)
    | some (eneg, ds, len) =>
      let ev : Int := Decimal.digitsValue ds
      let x := Decimal.toFloat (Decimal.digitsValue (whole ++ frac))
        ((if eneg then -ev else ev) - frac.length)
      .ok (.float (if neg then -x else x), r2.drop len, p + used + len)

mutual

/-- Reads one value at position `p`, where `room` more containers may open, for at most `fuel`
nested steps. -/
def scanValue : Nat → Nat → List Char → Nat → Scan Value
  | 0, _, _, p => .error (.invalid "Expecting value" p)
  | fuel + 1, room, cs, p =>
    match cs with
    | '"' :: rest =>
      match scanString p rest (p + 1) [] with
      | .ok (s, r, q) => .ok (.str s, r, q)
      | .error e => .error e
    | '{' :: rest =>
      match room with
      | 0 => .error (.tooDeep true)
      | room + 1 =>
        match skipSpace rest (p + 1) with
        | ('}' :: r, q) => .ok (.obj [], r, q + 1)
        | (r, q) => scanMembers fuel room [] r q
    | '[' :: rest =>
      match room with
      | 0 => .error (.tooDeep false)
      | room + 1 =>
        match skipSpace rest (p + 1) with
        | (']' :: r, q) => .ok (.arr [], r, q + 1)
        | (r, q) => scanItems fuel room [] r q
    | 'n' :: 'u' :: 'l' :: 'l' :: r => .ok (.null, r, p + 4)
    | 't' :: 'r' :: 'u' :: 'e' :: r => .ok (.bool true, r, p + 4)
    | 'f' :: 'a' :: 'l' :: 's' :: 'e' :: r => .ok (.bool false, r, p + 5)
    | 'N' :: 'a' :: 'N' :: r => .ok (.float Decimal.notANumber, r, p + 3)
    | 'I' :: 'n' :: 'f' :: 'i' :: 'n' :: 'i' :: 't' :: 'y' :: r =>
      .ok (.float Decimal.infinity, r, p + 8)
    | '-' :: 'I' :: 'n' :: 'f' :: 'i' :: 'n' :: 'i' :: 't' :: 'y' :: r =>
      .ok (.float (-Decimal.infinity), r, p + 9)
    | _ => scanNumber cs p

/-- Reads the members of an object after its opening brace and the blanks after it, where `room`
more containers may open inside it; `acc` holds the members read so far. -/
def scanMembers : Nat → Nat → List (Chars × Value) → List Char → Nat → Scan Value
  | 0, _, _, _, p => .error (.invalid "Expecting value" p)
  | fuel + 1, room, acc, cs, p =>
    match cs with
    | '"' :: rest =>
      match scanString p rest (p + 1) [] with
      | .error e => .error e
      | .ok (key, r1, p1) =>
        match skipSpace r1 p1 with
        | (':' :: r2, p2) =>
          let (r3, p3) := skipSpace r2 (p2 + 1)
          match scanValue fuel room r3 p3 with
          | .error e => .error e
          | .ok (v, r4, p4) =>
            let acc := Value.setMember acc key v
            match skipSpace r4 p4 with
            | ('}' :: r5, p5) => .ok (.obj acc, r5, p5 + 1)
            | (',' :: r5, p5) =>
              let (r6, p6) := skipSpace r5 (p5 + 1)
              scanMembers fuel room acc r6 p6
            | (_, p5) => .error (.invalid "Expecting ',' delimiter" p5)
        | (_, p2) => .error (.invalid "Expecting ':' delimiter" p2)
    | _ => .error (.invalid "Expecting property name enclosed in double quotes" p)

/-- Reads the items of an array after its opening bracket and the blanks after it, where `room`
more containers may open inside it; `acc` holds the items read so far, last first. -/
def scanItems : Nat → Nat → List Value → List Char → Nat → Scan Value
  | 0, _, _, _, p => .error (.invalid "Expecting value" p)
  | fuel + 1, room, acc, cs, p =>
    match scanValue fuel room cs p with
    | .error e => .error e
    | .ok (v, r1, p1) =>
      match skipSpace r1 p1 with
      | (']' :: r2, p2) => .ok (.arr (v :: acc).reverse, r2, p2 + 1)
      | (',' :: r2, p2) =>
        let (r3, p3) := skipSpace r2 (p2 + 1)
        scanItems fuel room (v :: acc) r3 p3
      | (_, p2) => .error (.invalid "Expecting ',' delimiter" p2)

end

/-- Reads a whole text as one value, with blanks around it, its arrays and objects nested at most
`maxDepth` deep. Every step of the reader consumes a character, so twice the length bounds the
steps. -/
def Value.read (maxDepth : Nat) (text : String) : Except ReadError Value :=
  let cs := text.toList
  match cs with
  | '﻿' :: _ => .error (.invalid "Unexpected UTF-8 BOM (decode using utf-8-sig)" 0)
  | _ =>
    let (r, p) := skipSpace cs 0
    match scanValue (2 * cs.length + 2) maxDepth r p with
    | .error e => .error e
    | .ok (v, rest, q) =>
      match skipSpace rest q with
      | ([], _) => .ok v
      | (_, q') => .error (.invalid "Extra data" q')

end Loot.Json
