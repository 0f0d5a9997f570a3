import Loot.Num

/-!
# Taking records apart

Records arrive as JSON values of any shape. `member` and `memberOr` take the value under a key,
`entries` lists an object's members and `elements` what iterating a value yields, and `toInt` and
`toFloat` convert numbers, booleans and numerals; each says, for every kind of value, what it gives
or why it fails.
-/

namespace Loot.Json

open Loot.Decimal Loot.Text

-- Powers of naturals and integers are the core's, whatever other power instances are in scope.
attribute [local instance (2000)] instPowNat

namespace Value

/-- The value under `key`. -/
def member (v : Value) (key : String) : Except Fault Value :=
  match v with
  | .obj ms =>
    match lookup ms key with
    | some x => .ok x
    | none => .error (Fault.missingKey key)
  | .arr _ => .error (Fault.type "list indices must be integers or slices, not str")
  | .str _ => .error (Fault.type "string indices must be integers, not 'str'")
  | other => .error (Fault.type ("'" ++ other.kindName ++ "' object is not subscriptable"))

/-- The value under `key`, or `default` when the key is missing. -/
def memberOr (v : Value) (key : String) (default : Value) : Except Fault Value :=
  match v with
  | .obj ms => .ok ((lookup ms key).getD default)
  | other => .error (Fault.noAttribute other.kindName "get")

/-- The members of an object. -/
def entries : Value → Except Fault (List (Chars × Value))
  | .obj ms => .ok ms
  | other => .error (Fault.noAttribute other.kindName "items")

/-- What iterating a value yields: an array's items, an object's keys, a string's characters. -/
def elements : Value → Except Fault (List Value)
  | .arr items => .ok items
  | .obj ms => .ok (ms.map fun m => .str m.1)
  | .str s => .ok (s.points.map fun p => .str ⟨[p]⟩)
  | other => .error (Fault.type ("'" ++ other.kindName ++ "' object is not iterable"))

/-- The member of an enumeration that a value names, the members listed in `all` with their
names. Any other value is refused with its literal notation, which the enumeration's lookup
quotes three calls below the `room` calls left where it is asked. -/
def enumOf {α : Type} (cls : String) (all : List α) (name : α → String) (room : Nat) (v : Value) :
    Except Fault α :=
  match v.string? >>= fun s => all.find? (name · == s) with
  | some x => .ok x
  | none => do throw (Fault.value ((← v.literal (room - 3)) ++ " is not a valid " ++ cls))

/-- The literal notation of a text, cut to its first 200 characters. -/
def shortLiteral (s : Chars) : String :=
  String.ofList ((quoteLiteral s).toList.take 200)

/-- The integer a value stands for: integers and booleans as they are, doubles rounded toward
zero, and integer numerals. -/
def toInt : Value → Except Fault Int
  | .int n => .ok n
  | .bool b => .ok (if b then 1 else 0)
  | .float x => Num.truncFloat x
  | .str s =>
    match readInt s.numeralChars with
    | .value n => .ok n
    | .invalid =>
      .error (Fault.value ("invalid literal for int() with base 10: " ++ shortLiteral s))
    | .tooLong n => .error (Fault.tooManyDigits n)
  | other => .error (Fault.type
      ("int() argument must be a string, a bytes-like object or a real number, not '" ++
        other.kindName ++ "'"))

/-- The double a value stands for: numbers and booleans as they are, and float numerals. -/
def toFloat : Value → Except Fault Float
  | .float x => .ok x
  | .int n => Num.intToFloat n
  | .bool b => .ok (if b then 1.0 else 0.0)
  | .str s =>
    match readFloat s.numeralChars with
    | some x => .ok x
    | none => .error (Fault.value ("could not convert string to float: " ++ quoteLiteral s))
  | other => .error (Fault.type
      ("float() argument must be a string or a real number, not '" ++ other.kindName ++ "'"))

/-- The number a value stands for in arithmetic: integers, booleans and doubles. -/
def toNum? : Value → Option Num
  | .int n => some (.int n)
  | .bool b => some (.int (if b then 1 else 0))
  | .float x => some (.float x)
  | _ => none

mutual

/-- Checks that a value can be written on one line: its arrays and objects nest at most `room`
deep, and every integer has a decimal text. The first fault in the text is reported. -/
def checkWritable (room : Nat) : Value → Except Fault Unit
  | .int n => if hasDecimalText n then .ok () else .error Fault.textTooLong
  | .arr items =>
    match room with
    | 0 => .error Fault.answerTooDeep
    | room + 1 => checkItems room items
  | .obj members =>
    match room with
    | 0 => .error Fault.answerTooDeep
    | room + 1 => checkMembers room members
  | _ => .ok ()

/-- Checks the items of an array. -/
def checkItems (room : Nat) : List Value → Except Fault Unit
  | [] => .ok ()
  | v :: vs => do checkWritable room v; checkItems room vs

/-- Checks the values of an object's members. -/
def checkMembers (room : Nat) : List (Chars × Value) → Except Fault Unit
  | [] => .ok ()
  | (_, v) :: ms => do checkWritable room v; checkMembers room ms

end

end Value

end Loot.Json

namespace Loot.Json.Value

/-- Rounds a value to a number of decimal places given as a value: the places must be a number
and so must the value; the places are looked at first. -/
def roundTo (v places : Value) : Except Fault Float := do
  let some p := places.toNum?
    | throw (Fault.type ("unsupported operand type(s) for ** or pow(): 'int' and '" ++
        places.kindName ++ "'"))
  let _ ← Num.scaleOf p
  let some x := v.toNum?
    | throw (Fault.type ("bad operand type for abs(): '" ++ v.kindName ++ "'"))
  Num.roundTo x p

end Loot.Json.Value
