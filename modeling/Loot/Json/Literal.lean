import Loot.Json.Write
import Loot.Text.Printable

/-!
# Strings as messages quote them

Error messages quote the strings they complain about in literal notation. A string is quoted
with single quotes unless it holds a single quote and no double quote. Inside, the backslash and
the chosen quote are escaped, tab, line feed and carriage return have their letter escapes, and
any other character that is not printable is written in hex: `\x` with two digits up to U+00FF,
`\u` with four up to U+FFFF, `\U` with eight beyond. A lone surrogate is not printable, so a
literal holds none.
-/

namespace Loot.Json

open Loot.Text

-- Powers of naturals and integers are the core's, whatever other power instances are in scope.
attribute [local instance (2000)] instPowNat

/-- The lowest `n` hex digits of `v`, in lower case. -/
def hexDigits (n v : Nat) : List Char :=
  (List.range n).reverse.map fun i => Nat.digitChar (v / 16 ^ i % 16)

/-- One character inside a string literal quoted with `q`. -/
def escapeLiteral (q c : Char) : List Char :=
  if c == q || c == '\\' then ['\\', c]
  else if c == '\t' then ['\\', 't']
  else if c == '\n' then ['\\', 'n']
  else if c == '\r' then ['\\', 'r']
  else if Text.isPrintable c then [c]
  else if c.toNat ≤ 0xFF then '\\' :: 'x' :: hexDigits 2 c.toNat
  else if c.toNat ≤ 0xFFFF then '\\' :: 'u' :: hexDigits 4 c.toNat
  else '\\' :: 'U' :: hexDigits 8 c.toNat

/-- One code point inside a string literal quoted with `q`. -/
def literalPoint (q : Char) : CodePoint → List Char
  | .char c => escapeLiteral q c
  | p => '\\' :: 'u' :: hexDigits 4 p.code

/-- A string in literal notation. -/
def quoteLiteral (s : Chars) : String :=
  let ps := s.points
  let q := if ps.contains (.char '\'') && !ps.contains (.char '"') then '"' else '\''
  String.ofList (q :: ps.flatMap (literalPoint q) ++ [q])

end Loot.Json
