import Loot.Decimal.Shortest

/-!
# Writing a double in decimal

Once the digits of a double are chosen, a `Layout` decides where the number is written positionally
and whether an integral value keeps a `.0`; elsewhere it takes an exponent of at least two digits.
`shortText` writes the fewest digits that read back (`1e-05`, `1000000000000000.0`, `1e+16`), and
`generalText` six significant digits without trailing zeros (`100000`, `1e+06`).
-/

namespace Loot.Decimal

/-- How a finite double is laid out once its digits are chosen. -/
structure Layout where
  /-- Positional notation needs the point after more than `lowPoint` digits. -/
  lowPoint : Int
  /-- Positional notation needs the point after at most `highPoint` digits. -/
  highPoint : Int
  /-- Whether an integral value written positionally ends in `.0`. -/
  pointZero : Bool

/-- The layout of the shortest text: positional from `1e-4` up to below `1e16`, and an integral
value keeps its `.0`. -/
def Layout.short : Layout := { lowPoint := -4, highPoint := 16, pointZero := true }

/-- The layout of the six-digit text: positional from `1e-4` up to below `1e6`, and an integral
value has no point. -/
def Layout.general : Layout := { lowPoint := -4, highPoint := 6, pointZero := false }

/-- The exponent of scientific notation: a sign and at least two digits. -/
def exponentText (x : Int) : List Char :=
  let ds := Nat.toDigits 10 x.natAbs
  (if x < 0 then '-' else '+') :: (if ds.length < 2 then '0' :: ds else ds)

/-- Writes the significant digits `ds` with the decimal point after `point` of them. -/
def Layout.place (l : Layout) (ds : List Char) (point : Int) : List Char :=
  let n := ds.length
  if l.lowPoint < point ∧ point ≤ l.highPoint then
    if point ≤ 0 then ['0', '.'] ++ List.replicate (-point).toNat '0' ++ ds
    else if point < n then ds.take point.toNat ++ '.' :: ds.drop point.toNat
    else ds ++ List.replicate (point.toNat - n) '0' ++ (if l.pointZero then ['.', '0'] else [])
  else
    let mantissa := match ds with
      | [] => []
      | [d] => [d]
      | d :: rest => d :: '.' :: rest
    mantissa ++ 'e' :: exponentText (point - 1)

/-- Writes `c · 10^e` (with `c > 0`) in layout `l`. -/
def Layout.write (l : Layout) (c : Nat) (e : Int) : List Char :=
  let ds := Nat.toDigits 10 c
  l.place ds (ds.length + e)

/-- The text of a double that is not finite. -/
def nonFiniteText (neg : Bool) : String := if neg then "-inf" else "inf"

/-- The shortest decimal text of a double that reads back as it. -/
def shortText (x : Float) : String :=
  match Binary.ofFloat x with
  | .nan => "nan"
  | .inf neg => nonFiniteText neg
  | .finite neg m q =>
    let sign := if neg then "-" else ""
    if m = 0 then sign ++ "0.0"
    else
      let (c, e) := shortest m q
      sign ++ String.ofList (Layout.short.write c e)

/-- A double with six significant digits, trailing zeros dropped. -/
def generalText (x : Float) : String :=
  match Binary.ofFloat x with
  | .nan => "nan"
  | .inf neg => nonFiniteText neg
  | .finite neg m q =>
    let sign := if neg then "-" else ""
    if m = 0 then sign ++ "0"
    else
      let (c, e) := rounded m q 6
      let (c, e) := trimZeros 6 c e
      sign ++ String.ofList (Layout.general.write c e)

end Loot.Decimal
