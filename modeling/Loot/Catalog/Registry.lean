/-!
# Registries

A registry maps ids to the slots where definitions are stored. Its entries are kept in ascending
order of id, each id once, so listing a registry lists its definitions by ascending id. Inserting
an id that is present replaces its slot; the next free id is one more than the largest, or one
for an empty registry.
-/

namespace Loot

/-- Ids and the slots they name, by ascending id. -/
structure Registry where
  /-- The entries, by ascending id. -/
  entries : List (Int × Nat)
  deriving Inhabited

namespace Registry

/-- The registry without entries. -/
def empty : Registry := ⟨[]⟩

/-- The slot of an id. -/
def find? (r : Registry) (id : Int) : Option Nat :=
  (r.entries.find? (·.1 == id)).map (·.2)

/-- Whether an id is present. -/
def contains (r : Registry) (id : Int) : Bool := r.entries.any (·.1 == id)

/-- Inserts an entry into an ascending list: it replaces the entry of its id, or goes before
the first larger id. -/
def insertEntry (id : Int) (slot : Nat) : List (Int × Nat) → List (Int × Nat)
  | [] => [(id, slot)]
  | e :: es =>
    if id < e.1 then (id, slot) :: e :: es
    else if id = e.1 then (id, slot) :: es
    else e :: insertEntry id slot es

/-- Sets the slot of an id. -/
def insert (r : Registry) (id : Int) (slot : Nat) : Registry := ⟨insertEntry id slot r.entries⟩

/-- Removes an id. -/
def erase (r : Registry) (id : Int) : Registry := ⟨r.entries.filter (·.1 != id)⟩

/-- The slots, by ascending id. -/
def slots (r : Registry) : List Nat := r.entries.map (·.2)

/-- The number of ids. -/
def size (r : Registry) : Nat := r.entries.length

/-- One more than the largest id, or one when there is none. -/
def nextId (r : Registry) : Int :=
  match r.entries.getLast? with
  | some e => e.1 + 1
  | none => 1

end Registry

end Loot
