import Loot.Fault

/-!
# Quoting values within a budget of nested calls

Messages quote the values they complain about in literal notation. Quoting shares a budget of
nested calls with the program that quotes: every value quoted, a key included, takes one, and
`room` counts the calls left. A value that would be quoted with none left fails with a recursion
failure, and an integer of more than 4300 digits fails too. `literal` is a message's `%r`, `text`
is `str` and `formatted` a value in an f-string, one call deeper for values other than strings.
-/

namespace Loot.Json

open Loot.Text

/-- A key in literal notation, with `room` calls left: quoting it takes one. -/
def literalKey (room : Nat) (k : Chars) : Except Fault String :=
  if room = 0 then .error Fault.reprTooDeep else .ok (quoteLiteral k)

mutual

/-- A value in literal notation, with `room` calls left. -/
def Value.literal (room : Nat) (v : Value) : Except Fault String :=
  match room, v with
  | 0, _ => .error Fault.reprTooDeep
  | _ + 1, .null => .ok "None"
  | _ + 1, .bool true => .ok "True"
  | _ + 1, .bool false => .ok "False"
  | _ + 1, .int n => if hasDecimalText n then .ok (toString n) else .error Fault.textTooLong
  | _ + 1, .float x => .ok (Decimal.shortText x)
  | _ + 1, .str s => .ok (quoteLiteral s)
  | room + 1, .arr items => do pure ("[" ++ (← literalItems room items) ++ "]")
  | room + 1, .obj members => do pure ("\x7b" ++ (← literalMembers room members) ++ "\x7d")

/-- Items in literal notation, separated by a comma and a space, each with `room` calls left. -/
def literalItems (room : Nat) : List Value → Except Fault String
  | [] => .ok ""
  | [v] => v.literal room
  | v :: vs => do pure ((← v.literal room) ++ ", " ++ (← literalItems room vs))

/-- Members in literal notation, separated by a comma and a space: each key, then its value, with
`room` calls left. -/
def literalMembers (room : Nat) : List (Chars × Value) → Except Fault String
  | [] => .ok ""
  | [(k, v)] => do pure ((← literalKey room k) ++ ": " ++ (← v.literal room))
  | (k, v) :: ms => do
    pure ((← literalKey room k) ++ ": " ++ (← v.literal room) ++ ", " ++
      (← literalMembers room ms))

end

/-- The text of a value, with `room` calls left: a string is itself, any other value its literal
notation. -/
def Value.text (room : Nat) : Value → Except Fault Chars
  | .str s => .ok s
  | v => Chars.ofString <$> v.literal room

/-- The text of a value in an f-string, with `room` calls left: strings and integers as `text`
gives them, any other value through its format method, one call deeper. -/
def Value.formatted (room : Nat) : Value → Except Fault Chars
  | .str s => .ok s
  | .int n => (Value.int n).text room
  | v => v.text (room - 1)

end Loot.Json
