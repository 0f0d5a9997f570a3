import Loot.Json.Value
import Loot.Decimal.Text
import Loot.Decimal.Reading

/-!
# Writing JSON text

`Value.compact` writes a value on one line and `Value.pretty` over several, indented by two spaces
per level. Doubles are written as their shortest text, and only the quote, the backslash and control
characters are escaped. Written over several lines for UTF-8, a text fails on a lone surrogate,
reporting its position in the piece written, on a container nested deeper than the bound, and on an
integer of more than 4300 digits; the failure first in the text wins.
-/

namespace Loot.Json

open Loot.Text

/-- The four lowest hex digits of `n`, in lower case. -/
def hex4 (n : Nat) : List Char :=
  [n / 4096 % 16, n / 256 % 16, n / 16 % 16, n % 16].map fun d => Nat.digitChar d

/-- The escaped form of one character inside a JSON string. -/
def escapeJson (c : Char) : List Char :=
  match c with
  | '"' => ['\\', '"']
  | '\\' => ['\\', '\\']
  | '\n' => ['\\', 'n']
  | '\r' => ['\\', 'r']
  | '\t' => ['\\', 't']
  | '\x08' => ['\\', 'b']
  | '\x0c' => ['\\', 'f']
  | c => if c.toNat < 0x20 then '\\' :: 'u' :: hex4 c.toNat else [c]

/-- A string as a JSON string token on one line, lone surrogates escaped. -/
def quoteJson (s : Chars) : String :=
  String.ofList ('"' :: s.points.flatMap escapePoint ++ ['"'])
where
  /-- The escaped form of one code point. -/
  escapePoint : CodePoint → List Char
    | .char c => escapeJson c
    | p => '\\' :: 'u' :: hex4 p.code

/-- A string as the code points of its JSON token, lone surrogates as they are. -/
def tokenPoints (s : Chars) : List CodePoint :=
  .char '"' :: s.points.flatMap (fun
    | .char c => (escapeJson c).map .char
    | p => [p]) ++ [.char '"']

/-- A string token for UTF-8, written after `offset` other characters of its piece. -/
def stringToken (offset : Nat) (s : Chars) : Except SurrogateRun String :=
  encodePoints offset (tokenPoints s)

/-- A double as a JSON number token. -/
def floatToken (x : Float) : String :=
  if x.isNaN then "NaN"
  else if x.isInf then (if x < 0 then "-Infinity" else "Infinity")
  else Decimal.shortText x

/-- Whether an integer has a decimal text: one of at most 4300 digits. -/
def hasDecimalText (n : Int) : Bool := (Nat.toDigits 10 n.natAbs).length ≤ Decimal.maxIntDigits

/-- The token of a value that holds no other value. -/
def scalarToken : Value → String
  | .null => "null"
  | .bool true => "true"
  | .bool false => "false"
  | .int n => toString n
  | .float x => floatToken x
  | .str s => quoteJson s
  | .arr _ => "[]"
  | .obj _ => "\x7b\x7d"

mutual

/-- A value on one line. -/
def Value.compact : Value → String
  | .arr items => "[" ++ compactItems items ++ "]"
  | .obj members => "\x7b" ++ compactMembers members ++ "\x7d"
  | v => scalarToken v

/-- Array items on one line, separated by a comma and a space. -/
def compactItems : List Value → String
  | [] => ""
  | [v] => v.compact
  | v :: vs => v.compact ++ ", " ++ compactItems vs

/-- Object members on one line, separated by a comma and a space. -/
def compactMembers : List (Chars × Value) → String
  | [] => ""
  | [(k, v)] => quoteJson k ++ ": " ++ v.compact
  | (k, v) :: ms => quoteJson k ++ ": " ++ v.compact ++ ", " ++ compactMembers ms

end

/-- The indentation of a line at `level`. -/
def indent (level : Nat) : String := String.ofList (List.replicate (2 * level) ' ')

/-- Why a value cannot be written over several lines for UTF-8. -/
inductive WriteError where
  /-- A string holds lone surrogates: where their first stretch lies in the string's piece. -/
  | unencodable (run : SurrogateRun)
  /-- Arrays and objects nest deeper than the writer allows. -/
  | tooDeep
  /-- An integer has more digits than a decimal text may have. -/
  | tooLong

/-- A string token for a piece of a text over several lines. -/
def pieceToken (offset : Nat) (s : Chars) : Except WriteError String :=
  (stringToken offset s).mapError .unencodable

mutual

/-- A value whose first line is already indented to `level`, where `room` more arrays and objects
may open, for UTF-8. -/
def Value.prettyAt (room level : Nat) : Value → Except WriteError String
  | .arr items =>
    match room with
    | 0 => .error .tooDeep
    | room + 1 =>
      match items with
      | [] => .ok "[]"
      | items => do
        .ok ("[\n" ++ (← prettyItems room (level + 1) items) ++ "\n" ++ indent level ++ "]")
  | .obj members =>
    match room with
    | 0 => .error .tooDeep
    | room + 1 =>
      match members with
      | [] => .ok "\x7b\x7d"
      | members => do
        .ok ("\x7b\n" ++ (← prettyMembers room (level + 1) members) ++ "\n" ++ indent level ++
          "\x7d")
  | .str s => pieceToken 0 s
  | .int n => if hasDecimalText n then .ok (toString n) else .error .tooLong
  | v => .ok (scalarToken v)

/-- One array item at `level`: a string shares its piece with what goes before it, a comma or a
bracket, a line break and the indentation. -/
def prettyItem (room level : Nat) : Value → Except WriteError String
  | .str s => pieceToken (2 + 2 * level) s
  | v => v.prettyAt room level

/-- Array items, one per line at `level`. -/
def prettyItems (room level : Nat) : List Value → Except WriteError String
  | [] => .ok ""
  | [v] => do .ok (indent level ++ (← prettyItem room level v))
  | v :: vs => do
    .ok (indent level ++ (← prettyItem room level v) ++ ",\n" ++ (← prettyItems room level vs))

/-- Object members, one per line at `level`. -/
def prettyMembers (room level : Nat) : List (Chars × Value) → Except WriteError String
  | [] => .ok ""
  | [(k, v)] => do
    .ok (indent level ++ (← pieceToken 0 k) ++ ": " ++ (← v.prettyAt room level))
  | (k, v) :: ms => do
    .ok (indent level ++ (← pieceToken 0 k) ++ ": " ++ (← v.prettyAt room level) ++ ",\n" ++
      (← prettyMembers room level ms))

end

/-- A value over several lines, indented by two spaces per level, with arrays and objects nested
at most `maxDepth` deep, for UTF-8. -/
def Value.pretty (maxDepth : Nat) (v : Value) : Except WriteError String := v.prettyAt maxDepth 0

end Loot.Json
