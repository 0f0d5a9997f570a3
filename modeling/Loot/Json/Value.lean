import Loot.Text.Chars

/-!
# JSON values

The catalog's records are read from JSON and written back to it, and until a record is checked it
may be any JSON value. A `Value` keeps what the reader saw: integers apart from floats (a number
with a fraction or an exponent is a float), and the members of an object in the order in which
their keys first appeared, each key once. Writing a later member with a key that is already
present replaces the value and keeps the first position. Strings and keys are `Chars`, since an
escape may write a lone surrogate into them.
-/

namespace Loot.Json

open Loot.Text

/-- A JSON value, with integers of any size and objects in member order. -/
inductive Value where
  /-- The value `null`. -/
  | null
  /-- `true` or `false`. -/
  | bool (b : Bool)
  /-- An integer, of any size. -/
  | int (n : Int)
  /-- A double. -/
  | float (x : Float)
  /-- A string. -/
  | str (s : Chars)
  /-- An array. -/
  | arr (items : List Value)
  /-- An object: its members in order, each key once. -/
  | obj (members : List (Chars × Value))
  deriving Inhabited

namespace Value

/-- The value under `key` in a member list. -/
def lookup (members : List (Chars × Value)) (key : String) : Option Value :=
  let k := Chars.ofString key
  (members.find? (·.1 == k)).map (·.2)

/-- Sets `key` to `v`: in place when the key is present, else at the end. -/
def setMember (members : List (Chars × Value)) (key : Chars) (v : Value) :
    List (Chars × Value) :=
  if members.any (·.1 == key) then members.map fun m => if m.1 == key then (key, v) else m
  else members ++ [(key, v)]

/-- An object whose keys are strings without lone surrogates. -/
def record (members : List (String × Value)) : Value :=
  .obj (members.map fun m => (Chars.ofString m.1, m.2))

/-- The name of a value's kind, as error messages give it. -/
def kindName : Value → String
  | .null => "NoneType"
  | .bool _ => "bool"
  | .int _ => "int"
  | .float _ => "float"
  | .str _ => "str"
  | .arr _ => "list"
  | .obj _ => "dict"

/-- The string of a string value that holds no lone surrogate. -/
def string? : Value → Option String
  | .str s => s.toString?
  | _ => none

/-- The member `key` of an object, or `none` for any other value or a missing key. -/
def field? : Value → String → Option Value
  | .obj ms, key => lookup ms key
  | _, _ => none

end Value

end Loot.Json
