import Loot.Decimal.Binary
import Loot.Text.Blank
import Loot.Text.Digits

/-!
# Reading numerals

A decimal `m · 10^e` becomes the nearest double (`toFloat`). An integer numeral is optional blanks
and sign, digits with single underscores between them, and optional blanks, of at most 4300 digits
(`readInt`); a float numeral also admits a point, an exponent and the words `inf`, `infinity` and
`nan` (`readFloat`). Digits of every script and Unicode spaces count.
-/

namespace Loot.Decimal

open Loot.Text

/-- Positive infinity. -/
def infinity : Float := Float.ofBits 0x7FF0000000000000

/-- The quiet not-a-number. -/
def notANumber : Float := Float.ofBits 0x7FF8000000000000

/-- The double nearest to `m · 10^e`. Values whose first digit lies beyond `10^310` are infinite
and values below `10^-330` are zero, so no huge power of ten is ever formed. -/
def toFloat (m : Nat) (e : Int) : Float :=
  let top := e + digitCount m
  if m = 0 then 0.0
  else if top > 310 then infinity
  else if top < -330 then 0.0
  else if e ≥ 0 then Float.ofScientific m false e.toNat
  else Float.ofScientific m true (-e).toNat

/-- A numeral with every digit turned into an ASCII digit and every blank into a space; `none`
when a character from U+007F on is neither. -/
def asciiForm : List Char → Option (List Char)
  | [] => some []
  | c :: cs =>
    let c' : Option Char :=
      if c.toNat < 0x7F then some c
      else if isBlank c then some ' '
      else (digitValue? c).map fun d => Char.ofNat ('0'.toNat + d)
    match c', asciiForm cs with
    | some d, some ds => some (d :: ds)
    | _, _ => none

/-- The ASCII blanks that surround a numeral once it is in ASCII form. -/
def isAsciiBlank (c : Char) : Bool :=
  c == ' ' || c == '\t' || c == '\n' || c == '\r' || c == '\x0b' || c == '\x0c'

/-- The value of a string of ASCII digits. -/
def digitsValue (ds : List Char) : Nat :=
  ds.foldl (fun n d => 10 * n + (d.toNat - '0'.toNat)) 0

/-- Splits a leading sign off: whether it is a minus, and the rest. -/
def splitSign : List Char → Bool × List Char
  | '-' :: cs => (true, cs)
  | '+' :: cs => (false, cs)
  | cs => (false, cs)

/-- Digits with single underscores between them: the digits, and the rest of the text; `none`
when an underscore is doubled or ends the run. -/
def digitRun : List Char → Option (List Char × List Char)
  | c :: '_' :: d :: rest =>
    if c.isDigit then
      if d.isDigit then (digitRun (d :: rest)).map fun (ds, r) => (c :: ds, r) else none
    else some ([], c :: '_' :: d :: rest)
  | [c, '_'] => if c.isDigit then none else some ([], [c, '_'])
  | c :: cs =>
    if c.isDigit then (digitRun cs).map fun (ds, r) => (c :: ds, r) else some ([], c :: cs)
  | [] => some ([], [])

/-- How an integer numeral reads. -/
inductive IntReading where
  /-- It is this integer. -/
  | value (n : Int)
  /-- It is not an integer numeral. -/
  | invalid
  /-- It has more digits than the limit allows: this many. -/
  | tooLong (digits : Nat)

/-- The most digits an integer numeral may have. -/
def maxIntDigits : Nat := 4300

/-- Reads an integer numeral in base ten. -/
def readInt (text : List Char) : IntReading :=
  match asciiForm text with
  | none => .invalid
  | some cs =>
    let (neg, body) := splitSign (cs.dropWhile isAsciiBlank)
    match body with
    | '_' :: _ => .invalid
    | _ =>
      match digitRun body with
      | none => .invalid
      | some (ds, rest) =>
        if ds.length > maxIntDigits then .tooLong ds.length
        else if ds.isEmpty || !(rest.dropWhile isAsciiBlank).isEmpty then .invalid
        else
          let n : Int := digitsValue ds
          .value (if neg then -n else n)

/-- Removes the underscores of a numeral, each of which must stand between two digits. -/
def dropUnderscores : Option Char → List Char → Option (List Char)
  | _, [] => some []
  | prev, c :: cs =>
    if c == '_' then
      match prev, cs with
      | some p, d :: _ => if p.isDigit && d.isDigit then dropUnderscores (some c) cs else none
      | _, _ => none
    else (dropUnderscores (some c) cs).map (c :: ·)

/-- Case-insensitive equality of ASCII letters. -/
def sameLetters (a b : List Char) : Bool :=
  a.length == b.length && (a.zip b).all fun (x, y) => x.toLower == y.toLower

/-- The value of an unsigned float numeral in ASCII form without blanks. -/
def unsignedFloat (cs : List Char) : Option Float :=
  if sameLetters cs "inf".toList || sameLetters cs "infinity".toList then some infinity
  else if sameLetters cs "nan".toList then some notANumber
  else
    let whole := cs.takeWhile Char.isDigit
    let afterWhole := cs.dropWhile Char.isDigit
    let (frac, afterFrac) := match afterWhole with
      | '.' :: r => (r.takeWhile Char.isDigit, r.dropWhile Char.isDigit)
      | r => ([], r)
    if whole.isEmpty && frac.isEmpty then none
    else
      let expo : Option Int := match afterFrac with
        | [] => some 0
        | e :: r =>
          if e == 'e' || e == 'E' then
            let (neg, ds) := splitSign r
            if !ds.isEmpty && ds.all Char.isDigit then
              some (if neg then -(digitsValue ds : Int) else digitsValue ds)
            else none
          else none
      expo.map fun x => toFloat (digitsValue (whole ++ frac)) (x - frac.length)

/-- Reads a float numeral. -/
def readFloat (text : List Char) : Option Float := do
  let cs ← asciiForm text
  let cs ← if cs.contains '_' then dropUnderscores none cs else some cs
  let cs := ((cs.dropWhile isAsciiBlank).reverse.dropWhile isAsciiBlank).reverse
  let (neg, body) := splitSign cs
  let x ← unsignedFloat body
  return if neg then -x else x

end Loot.Decimal
