import Loot.Json.Coerce

/-!
# Item classifications

An item is a currency, an equippable item for one of seven slots, or invalid. In records a
classification is the text `Currency` or `Invalid`, or an object with the single member
`Equippable` whose value names the slot; its text is `Currency`, `Invalid` or `Equippable(Head)`.
-/

namespace Loot

open Loot.Json

/-- Where an equippable item is worn. -/
inductive Slot where
  /-- The head. -/
  | head
  /-- The left arm. -/
  | leftArm
  /-- The right arm. -/
  | rightArm
  /-- The body. -/
  | body
  /-- The belt. -/
  | belt
  /-- The legs. -/
  | legs
  /-- The feet. -/
  | boots
  deriving DecidableEq, Repr

/-- The name of a slot in records. -/
def Slot.name : Slot → String
  | .head => "Head"
  | .leftArm => "LeftArm"
  | .rightArm => "RightArm"
  | .body => "Body"
  | .belt => "Belt"
  | .legs => "Legs"
  | .boots => "Boots"

/-- All slots. -/
def Slot.all : List Slot := [.head, .leftArm, .rightArm, .body, .belt, .legs, .boots]

/-- The slot a value names, asked with `room` calls left; any other value is refused. -/
def Slot.ofValue (room : Nat) (v : Value) : Except Fault Slot :=
  v.enumOf "ItemEquipSlot" Slot.all Slot.name room

/-- What kind of thing an item is. -/
inductive Classification where
  /-- Not a usable item. -/
  | invalid
  /-- Worn in a slot. -/
  | equippable (slot : Slot)
  /-- Money. -/
  | currency
  deriving DecidableEq, Repr, Inhabited

namespace Classification

/-- The names of the three kinds. -/
inductive Tag where
  /-- `Invalid`. -/
  | invalid
  /-- `Equippable`. -/
  | equippable
  /-- `Currency`. -/
  | currency
  deriving DecidableEq

/-- All kinds. -/
def Tag.all : List Tag := [.invalid, .equippable, .currency]

/-- The name of a kind. -/
def Tag.name : Tag → String
  | .invalid => "Invalid"
  | .equippable => "Equippable"
  | .currency => "Currency"

/-- The kind a name stands for, asked with `room` calls left; any other name is refused. -/
def tagOf (room : Nat) (v : Value) : Except Fault Tag :=
  v.enumOf "ItemClassificationKind" Tag.all Tag.name room

/-- Whether a classification is valid: all but the invalid one. -/
def isValid : Classification → Bool
  | .invalid => false
  | _ => true

/-- The text of a classification. -/
def text : Classification → String
  | .invalid => "Invalid"
  | .equippable s => "Equippable(" ++ s.name ++ ")"
  | .currency => "Currency"

/-- The record of a classification. -/
def toValue : Classification → Value
  | .invalid => .str "Invalid"
  | .equippable s => Value.record [("Equippable", .str s.name)]
  | .currency => .str "Currency"

/-- Reads a classification record, for a reader called with `room` calls left, whose body runs
one call deeper. -/
def ofValue (room : Nat) (raw : Value) : Except Fault Classification :=
  match raw with
  | .str _ => do
    match ← tagOf (room - 1) raw with
    | .invalid => pure .invalid
    | .currency => pure .currency
    | .equippable => throw (Fault.value "Equippable classification requires a slot")
  | .obj [(name, slot)] => do
    match ← tagOf (room - 1) (.str name) with
    | .equippable => pure (.equippable (← Slot.ofValue (room - 1) slot))
    | _ => throw (.builtin .value
      (Text.Chars.ofString "Classification " ++ name ++ Text.Chars.ofString " takes no slot"))
  | other => do
    throw (Fault.value ("Unrecognized item classification: " ++ (← other.literal (room - 1))))

end Classification

end Loot
