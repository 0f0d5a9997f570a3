import Loot.Json.Coerce

/-!
# Malformed records

When a record cannot be read, the failure names the registry, the record's id and the plain
failure inside. The id is the record's `id` member as an f-string gives it, `?` when the member
is missing or the record is not an object. Only the failures a reader expects are turned into a
malformed record; any other failure passes through as it is, and so does a failure to give the
id as text, which happens after the reader has failed.
-/

namespace Loot

open Loot.Json

/-- The id of a record as a failure names it. -/
def recordId (raw : Value) : Value :=
  match raw with
  | .obj ms => (Value.lookup ms "id").getD (.str "?")
  | _ => .str "?"

/-- Turns the expected plain failures of reading `raw` into a malformed-record failure, whose
message is written with `room` calls left. -/
def asMalformed {α : Type} (room : Nat) (kind : Kind) (expected : List Builtin) (raw : Value) :
    Except Fault α → Except Fault α
  | .error (.builtin cls m) =>
    if expected.contains cls then do
      throw (.load (.malformed kind (← (recordId raw).formatted room) cls m))
    else .error (.builtin cls m)
  | r => r

/-- The failures that reading an affix expects. -/
def affixExpected : List Builtin := [.key, .value, .type, .attribute]

/-- The failures that reading a pool, an item or a loot pool expects. -/
def recordExpected : List Builtin := [.key, .value, .type]

end Loot
