import Loot.Random.Source
import Loot.Json.Quote

/-!
# Weighted draws

`weightedIndex ws` refuses a negative weight before drawing, answers `none` without drawing when
the weights sum to zero or less, and otherwise draws one roll `r` below the total and answers the
first index whose running sum exceeds `r`. Sums are exact while all weights are integers; a total
that is a double must be integral and finite to be rolled below.
-/

namespace Loot.Random

open Loot.Json

/-- The literal notation of a list of numbers. -/
def numsLiteral (ws : List Num) : String :=
  "[" ++ ", ".intercalate (ws.map Num.text) ++ "]"

/-- Refuses a negative weight; the message lists all the weights. -/
def checkWeights (ws : List Num) : Except Fault Unit :=
  if ws.any Num.isNeg then .error (Fault.value ("Negative weight in " ++ numsLiteral ws))
  else .ok ()

/-- The sum of the weights, from the integer zero on. -/
def total (ws : List Num) : Except Fault Num :=
  ws.foldlM Num.add (.int 0)

/-- The roll below a positive total: a double total must be finite and integral. -/
def rollBelow : Num → Draw Nat
  | .int n => below n.toNat
  | .float x => do
    match Num.truncFloat x with
    | .error e => throw e
    | .ok n =>
      if Num.cmpFloatInt x n != some .eq then
        throw (Fault.value "non-integer arg 1 for randrange()")
      else below n.toNat

/-- The first index, from `i` on, at which the running sum `acc` plus the weights so far
exceeds the roll. -/
def firstAbove (roll : Nat) : List Num → Num → Nat → Except Fault (Option Nat)
  | [], _, _ => .ok none
  | w :: ws, acc, i => do
    let acc ← acc.add w
    if acc.gtInt roll then pure (some i) else firstAbove roll ws acc (i + 1)

/-- Draws an index with probability proportional to its weight; `none` when the weights sum to
zero. -/
def weightedIndex (ws : List Num) : Draw (Option Nat) := do
  match checkWeights ws, total ws with
  | .error e, _ => throw e
  | .ok (), .error e => throw e
  | .ok (), .ok t =>
    let positive := match t with
      | .int n => n > 0
      | .float x => !(x ≤ 0)
    if !positive then pure none
    else
      let roll ← rollBelow t
      match firstAbove roll ws (.int 0) 0 with
      | .ok r => pure r
      | .error e => throw e

/-- The calls left in a weighted draw that an operation asks for. -/
def drawRoom : Nat := 995

/-- Reads weights given as values, in order: a value that is not a number is refused by the
comparison with zero, and so is a negative number, whose message lists all the values, written
in an f-string with `drawRoom` calls left. -/
def weightsOfValues (vs : List Value) : Except Fault (List Num) :=
  go vs
where
  /-- Checks the values from this one on. -/
  go : List Value → Except Fault (List Num)
    | [] => .ok []
    | v :: rest =>
      let n? : Option Num := match v with
        | .int n => some (.int n)
        | .bool b => some (.int (if b then 1 else 0))
        | .float x => some (.float x)
        | _ => none
      match n? with
      | none => .error (Fault.type ("'<' not supported between instances of '" ++ v.kindName ++
          "' and 'int'"))
      | some n =>
        -- the list is quoted through its format method, one call deeper
        if n.isNeg then do
          throw (Fault.value ("Negative weight in " ++ (← (Value.arr vs).literal (drawRoom - 1))))
        else (go rest).map (n :: ·)

/-- Draws an index by weights given as values: the values are checked as `weightsOfValues` does,
then the index is drawn as `weightedIndex` draws it. -/
def weightedIndexOf (vs : List Value) : Draw (Option Nat) := do
  weightedIndex (← fromExcept (weightsOfValues vs))

end Loot.Random
