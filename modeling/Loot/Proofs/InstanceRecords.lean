import Loot.Roll.Item
import Loot.Proofs.StatSums
import Loot.Proofs.Registry
import Loot.Proofs.ItemRoll

/-!
# Instance records read back

A rolled item or affix is written as a record of ids, tier and stat totals, and reading it looks the
ids up again and re-adds the totals. The record of an instance kept as the library keeps it reads
back as the instance (`instance_records_read_back`): a key that finds a registry entry reads as
that entry's integer (`Catalog.require_toInt`), and a sparse stat list is rebuilt by re-adding its
totals (`StatList.ofValue_toValue`).
-/

namespace Loot

open Loot.Json Loot.Decimal

/-! ## Record keys -/

theorem Text.Chars.ofString_inj {a b : String} :
    Text.Chars.ofString a = Text.Chars.ofString b ↔ a = b := by
  constructor
  · intro h
    have hmap : a.toList.map Text.CodePoint.char = b.toList.map Text.CodePoint.char :=
      congrArg Text.Chars.points h
    have hlist : a.toList = b.toList :=
      (List.map_inj_right fun x y hxy => by cases hxy; rfl).1 hmap
    exact String.toList_inj.1 hlist
  · rintro rfl
    rfl

/-- Looking a key up in the members of a record compares it with the first member's key. -/
@[simp]
theorem Json.Value.lookup_ofString_cons (k key : String) (v : Value)
    (ms : List (Text.Chars × Value)) :
    Value.lookup ((Text.Chars.ofString k, v) :: ms) key =
      if k = key then some v else Value.lookup ms key := by
  by_cases h : k = key
  · simp [Value.lookup, h]
  · simp [Value.lookup, h, Text.Chars.ofString_inj]

/-! ## Keys that read as integers -/

/-- A magnitude `m · 2^q` that compares equal to the integer `n` truncates to it. -/
theorem Decimal.trunc_of_cmpInt_eq {m : Nat} {q : Int} {n : Nat} (h : cmpInt m q n = .eq) :
    (if q ≥ 0 then (m : Int) * 2 ^ q.toNat else (m : Int) / 2 ^ (-q).toNat) = n := by
  have hmn : m * 2 ^ q.toNat = n * 2 ^ (-q).toNat := Nat.compare_eq_eq.1 h
  split_ifs with hq
  · have h0 : (-q).toNat = 0 := by omega
    rw [h0, pow_zero, mul_one] at hmn
    exact_mod_cast hmn
  · have h0 : q.toNat = 0 := by omega
    rw [h0, pow_zero, mul_one] at hmn
    rw [hmn]
    push_cast
    exact Int.mul_ediv_cancel _ (by positivity)

/-- A double that compares equal to an integer truncates to it. -/
theorem Num.truncFloat_of_cmpFloatInt {x : Float} {n : Int} (h : Num.cmpFloatInt x n = some .eq) :
    Num.truncFloat x = .ok n := by
  unfold Num.cmpFloatInt at h
  unfold Num.truncFloat
  cases hx : Binary.ofFloat x with
  | nan => simp [hx] at h
  | inf neg => cases neg <;> simp [hx] at h
  | finite neg m q =>
    simp only [hx] at h ⊢
    by_cases hm : m = 0
    · subst hm
      simp only [if_true, Option.some.injEq] at h
      have hn : n = 0 := by
        have := Int.compare_eq_eq.1 h
        omega
      subst hn
      simp
    -- a non-zero magnitude equals the integer's only when the signs agree
    · simp only [hm, if_false] at h
      cases neg with
      | true =>
        by_cases hn : n ≥ 0
        · simp [hn] at h
        · simp only [hn, ↓reduceIte, Option.some.injEq, Ordering.swap_eq_eq] at h
          rw [trunc_of_cmpInt_eq h]
          simp only [if_true, Except.ok.injEq]
          omega
      | false =>
        by_cases hn : n ≤ 0
        · simp [hn] at h
        · simp only [hn, ↓reduceIte, Bool.false_eq_true, Option.some.injEq] at h
          rw [trunc_of_cmpInt_eq h]
          simp only [Bool.false_eq_true, if_false, Except.ok.injEq]
          omega

namespace Json.Value

variable {v : Value} {key : Int}

/-- A key value that is the same key as an integer is the same key as no other integer. -/
theorem sameKey_int_of_sameKey (h : v.sameKey (.int key) = true) (n : Int) :
    v.sameKey (.int n) = decide (key = n) := by
  cases v with
  | null => simp at h
  | bool b =>
    -- a boolean is the same key as the integer it counts as
    have hb : ∀ n, (Value.bool b).sameKey (.int n) =
        Value.sameKey (.int (if b then 1 else 0)) (.int n) := fun n => rfl
    rw [hb, sameKey_int_int, decide_eq_true_eq] at h
    rw [hb, sameKey_int_int, h]
  | int a => simp_all
  | float x =>
    simp only [Value.sameKey, Value.toNum?, Num.compare?, beq_iff_eq] at h ⊢
    have hkey := Num.truncFloat_of_cmpFloatInt h
    refine Bool.eq_iff_iff.2 ⟨fun hn => ?_, fun hn => ?_⟩
    · have hn' := Num.truncFloat_of_cmpFloatInt (beq_iff_eq.1 hn)
      simpa using hkey.symm.trans hn'
    · simp only [decide_eq_true_eq] at hn
      subst hn
      simpa using h
  | str s => simp [Value.sameKey, Value.toNum?] at h
  | arr xs => simp [Value.sameKey, Value.toNum?] at h
  | obj ms => simp [Value.sameKey, Value.toNum?] at h

/-- A key value that is the same key as an integer reads as that integer. -/
theorem toInt_of_sameKey (h : v.sameKey (.int key) = true) : v.toInt = .ok key := by
  cases v with
  | null => simp at h
  | bool b =>
    have hb : (Value.bool b).sameKey (.int key) =
        Value.sameKey (.int (if b then 1 else 0)) (.int key) := rfl
    rw [hb, sameKey_int_int, decide_eq_true_eq] at h
    rw [← h]
    rfl
  | int a =>
    rw [sameKey_int_int, decide_eq_true_eq] at h
    rw [h]
    rfl
  | float x =>
    simp only [Value.sameKey, Value.toNum?, Num.compare?, beq_iff_eq] at h
    exact Num.truncFloat_of_cmpFloatInt h
  | str s => simp [Value.sameKey, Value.toNum?] at h
  | arr xs => simp [Value.sameKey, Value.toNum?] at h
  | obj ms => simp [Value.sameKey, Value.toNum?] at h

end Json.Value

/-- A key that is required successfully reads as an integer, and that integer requires the same
slot. -/
theorem Catalog.require_toInt {c : Catalog} {k : Kind} {v : Value} {slot : Nat}
    (h : c.require k v = .ok slot) :
    ∃ n, v.toInt = .ok n ∧ c.require k (.int n) = .ok slot := by
  obtain ⟨-, key, hf⟩ := require_eq_ok.1 h
  have hsame : v.sameKey (.int key) = true := by simpa using List.find?_some hf
  -- the key and the integer it reads as find the same entries
  have hpred : (fun e : Int × Nat => v.sameKey (.int e.1)) =
      fun e => Value.sameKey (.int key) (.int e.1) := by
    funext e
    rw [Value.sameKey_int_of_sameKey hsame, sameKey_int_int]
  refine ⟨key, Value.toInt_of_sameKey hsame, require_eq_ok.2 ⟨rfl, key, ?_⟩⟩
  rw [← hpred]
  exact hf

/-! ## Reading instances back -/

/-- Reading back the written form of each element of a list, when each reads back, gives the
list. -/
theorem mapM_map_eq_ok_self {α β ε : Type} {f : α → β} {g : β → Except ε α} :
    ∀ {xs : List α}, (∀ x ∈ xs, g (f x) = .ok x) → (xs.map f).mapM g = .ok xs
  | [], _ => rfl
  | x :: xs, h => by
    rw [List.map_cons, List.mapM_cons, h x List.mem_cons_self,
      mapM_map_eq_ok_self fun y hy => h y (List.mem_cons_of_mem x hy)]
    rfl

variable {c : Catalog}

/-- A list holding each stat once and no not-a-number is equal to itself. -/
theorem StatList.equiv_self {l : StatList} (hnd : l.stats.Nodup)
    (hnan : ∀ e ∈ l.entries, e.2.isNaN = false) : l.equiv l = true := by
  simp only [StatList.equiv, beq_self_eq_true, Bool.true_and, List.all_eq_true]
  intro e he
  rw [StatList.get?_of_mem hnd he]
  exact float_beq_self (hnan e he)

theorem RolledAffix.ofValue_toValue {a : RolledAffix}
    (hreg : c.require .affix (c.idAt .affix a.affix.slot) = .ok a.affix.slot)
    (hs : a.stats.Sparse) : RolledAffix.ofValue c (a.toValue c) = .ok a := by
  obtain ⟨n, hn, hslot⟩ := Catalog.require_toInt hreg
  have hid : (c.affix a.affix).id = c.idAt .affix a.affix.slot := rfl
  have htier : (Value.int a.tier).toInt = .ok a.tier := rfl
  simp [RolledAffix.ofValue, RolledAffix.toValue, Value.record, Value.member, Value.memberOr, hid,
    hn, hslot, htier, StatList.ofValue_toValue hs]

theorem RolledAffix.equiv_self {a : RolledAffix} (hnd : a.stats.stats.Nodup)
    (hnan : ∀ e ∈ a.stats.entries, e.2.isNaN = false) : a.equiv a = true := by
  simp [RolledAffix.equiv, StatList.equiv_self hnd hnan]

theorem RolledItem.ofValue_toValue {i : RolledItem}
    (hreg : c.require .item (c.idAt .item i.item.slot) = .ok i.item.slot)
    (ha : ∀ a ∈ i.affixes, RolledAffix.ofValue c (a.toValue c) = .ok a) :
    RolledItem.ofValue c (i.toValue c) = .ok i := by
  obtain ⟨n, hn, hslot⟩ := Catalog.require_toInt hreg
  have hid : (c.item i.item).id = c.idAt .item i.item.slot := rfl
  simp [RolledItem.ofValue, RolledItem.toValue, Value.record, Value.member, Value.memberOr, hid,
    hn, hslot, Value.text, Value.elements, mapM_map_eq_ok_self ha]

theorem RolledItem.equiv_self {i : RolledItem} (h : ∀ a ∈ i.affixes, a.equiv a = true) :
    i.equiv i = true := by
  simp only [RolledItem.equiv, beq_self_eq_true, Bool.true_and, List.all_eq_true]
  -- an item's affixes are compared with themselves pair by pair
  rw [List.zip, List.zipWith_self]
  simpa using h

/-- A rolled affix as the library keeps it: its definition is registered under its current id,
and its stats are sparse, with no total a not-a-number. -/
structure RolledAffix.Kept (c : Catalog) (a : RolledAffix) : Prop where
  registered : c.require .affix (c.idAt .affix a.affix.slot) = .ok a.affix.slot
  sparse : a.stats.Sparse
  not_nan : ∀ e ∈ a.stats.entries, e.2.isNaN = false

/-- The record of a sparse stat list reads back as the list, entry for entry and in order; the
record of a kept rolled affix reads back as the affix, which is equal to itself; and the record
of a rolled item whose definition is registered under its current id and whose affixes are kept
reads back as the item, with the same identifier, the same definition and the same affixes in
order, and it is equal to itself. -/
theorem instance_records_read_back (c : Catalog) :
    (∀ l : StatList, l.Sparse → StatList.ofValue l.toValue = .ok l) ∧
    (∀ a : RolledAffix, a.Kept c →
      RolledAffix.ofValue c (a.toValue c) = .ok a ∧ a.equiv a = true) ∧
    (∀ i : RolledItem, c.require .item (c.idAt .item i.item.slot) = .ok i.item.slot →
      (∀ a ∈ i.affixes, a.Kept c) →
      RolledItem.ofValue c (i.toValue c) = .ok i ∧ i.equiv i = true) := by
  have haffix : ∀ a : RolledAffix, a.Kept c →
      RolledAffix.ofValue c (a.toValue c) = .ok a ∧ a.equiv a = true := fun a ha =>
    ⟨RolledAffix.ofValue_toValue ha.registered ha.sparse,
      RolledAffix.equiv_self ha.sparse.nodup ha.not_nan⟩
  refine ⟨fun l hl => StatList.ofValue_toValue hl, haffix, fun i hreg ha => ⟨?_, ?_⟩⟩
  · exact RolledItem.ofValue_toValue hreg fun a h => (haffix a (ha a h)).1
  · exact RolledItem.equiv_self fun a h => (haffix a (ha a h)).2

/-- An item of the sample catalog with two rolled affixes, one with two stats. -/
def sampleRolledItem : RolledItem :=
  ⟨Text.Chars.ofString "3f2a", ⟨0⟩,
    [⟨⟨0⟩, 2, StatList.ofModifiers [⟨.health, 2.5⟩, ⟨.energy, -1.0⟩]⟩,
      ⟨⟨1⟩, 1, StatList.ofModifiers []⟩]⟩

/-- The record of the sample item reads back as the item. -/
theorem sample_item_record_reads_back :
    RolledItem.ofValue (samplePoolCatalog (.int 3) (.int 1) (.int 2))
        (sampleRolledItem.toValue (samplePoolCatalog (.int 3) (.int 1) (.int 2))) =
      .ok sampleRolledItem ∧ sampleRolledItem.equiv sampleRolledItem = true := by
  have hkept : ∀ a ∈ sampleRolledItem.affixes,
      a.Kept (samplePoolCatalog (.int 3) (.int 1) (.int 2)) := by
    intro a ha
    simp only [sampleRolledItem, List.mem_cons, List.not_mem_nil, or_false] at ha
    rcases ha with rfl | rfl <;> exact ⟨rfl, StatList.Sparse.ofModifiers _, by decide⟩
  exact (instance_records_read_back _).2.2 sampleRolledItem rfl hkept

end Loot
