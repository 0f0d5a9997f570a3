import Loot.Proofs.Failures

/-!
# The budget of quoting

Quoting a value fails in two ways only (`failsOnly_literal`): the value is nested deeper than the
calls left, a recursion failure, or an integer in it has no decimal text, a value failure. The
first is what a message about a deeply nested value ends with: a value wrapped in `n` lists
cannot be quoted with `n` calls or fewer left (`literal_nest`), whatever it holds.

A string is its own text and needs no call, so texts and f-strings of strings never fail.
-/

namespace Loot.Json

open Loot.Text

/-- The failures of quoting: a value nested deeper than the calls left, or an integer without a
decimal text. -/
def QuoteFault (e : Fault) : Prop := e = Fault.reprTooDeep ∨ e = Fault.textTooLong

@[simp]
theorem quoteFault_reprTooDeep : QuoteFault Fault.reprTooDeep := .inl rfl

@[simp]
theorem quoteFault_textTooLong : QuoteFault Fault.textTooLong := .inr rfl

theorem failsOnly_literalKey (room : Nat) (k : Chars) : FailsOnly QuoteFault (literalKey room k) := by
  unfold literalKey
  split <;> simp

mutual

/-- Quoting fails only for want of calls or of a decimal text. -/
theorem failsOnly_literal : ∀ (room : Nat) (v : Value), FailsOnly QuoteFault (v.literal room)
  | 0, _ => by simp [Value.literal]
  | _ + 1, .null | _ + 1, .bool true | _ + 1, .bool false | _ + 1, .float _ | _ + 1, .str _ => by
    simp [Value.literal]
  | _ + 1, .int n => by
    simp only [Value.literal]
    split <;> simp
  | room + 1, .arr items =>
    FailsOnly.bind (failsOnly_literalItems room items) fun _ _ => FailsOnly.pure _
  | room + 1, .obj members =>
    FailsOnly.bind (failsOnly_literalMembers room members) fun _ _ => FailsOnly.pure _
termination_by structural _ v => v

theorem failsOnly_literalItems : ∀ (room : Nat) (items : List Value),
    FailsOnly QuoteFault (literalItems room items)
  | _, [] => FailsOnly.pure _
  | room, [v] => failsOnly_literal room v
  | room, v :: w :: ws =>
    FailsOnly.bind (failsOnly_literal room v) fun _ _ =>
      FailsOnly.bind (failsOnly_literalItems room (w :: ws)) fun _ _ => FailsOnly.pure _
termination_by structural _ items => items

theorem failsOnly_literalMembers : ∀ (room : Nat) (members : List (Chars × Value)),
    FailsOnly QuoteFault (literalMembers room members)
  | _, [] => FailsOnly.pure _
  | room, [(k, v)] =>
    FailsOnly.bind (failsOnly_literalKey room k) fun _ _ =>
      FailsOnly.bind (failsOnly_literal room v) fun _ _ => FailsOnly.pure _
  | room, (k, v) :: m :: ms =>
    FailsOnly.bind (failsOnly_literalKey room k) fun _ _ =>
      FailsOnly.bind (failsOnly_literal room v) fun _ _ =>
        FailsOnly.bind (failsOnly_literalMembers room (m :: ms)) fun _ _ => FailsOnly.pure _
termination_by structural _ members => members

end

theorem failsOnly_text (room : Nat) (v : Value) : FailsOnly QuoteFault (v.text room) := by
  cases v
  case str s => exact FailsOnly.pure s
  all_goals exact FailsOnly.map (failsOnly_literal _ _)

theorem failsOnly_formatted (room : Nat) (v : Value) : FailsOnly QuoteFault (v.formatted room) := by
  cases v
  case str s => exact FailsOnly.pure s
  all_goals simp only [Value.formatted]; exact failsOnly_text _ _

@[simp]
theorem Value.text_str (room : Nat) (s : Chars) : (Value.str s).text room = .ok s := rfl

@[simp]
theorem Value.formatted_str (room : Nat) (s : Chars) : (Value.str s).formatted room = .ok s := rfl

/-- A value wrapped in `n` lists of one item. -/
def Value.nest : Nat → Value → Value
  | 0, v => v
  | n + 1, v => .arr [nest n v]

/-- A value wrapped in `n` lists cannot be quoted with `n` calls or fewer left: quoting runs out
of calls before it reaches the value inside. -/
theorem literal_nest : ∀ {room n : Nat} (v : Value), room ≤ n →
    (Value.nest n v).literal room = .error Fault.reprTooDeep
  | 0, _, _, _ => by simp [Value.literal]
  | room + 1, n + 1, v, h => by
    have hin : (Value.nest n v).literal room = .error Fault.reprTooDeep :=
      literal_nest v (by omega)
    simp only [Value.nest, Value.literal, literalItems, hin]
    rfl

end Loot.Json
