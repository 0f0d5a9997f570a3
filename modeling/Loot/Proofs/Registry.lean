import Loot.Catalog.Basic
import Loot.Proofs.Draw
import Mathlib.Data.List.Pairwise
import Mathlib.Tactic.SplitIfs

/-!
# Sorted registries

A registry keeps its entries by strictly ascending id; inserting and erasing keep that order. In a
sorted registry finding an id answers exactly its entry's slot, and the next free id is above every
registered one. A key given as a value is found by comparing it the way keys compare, so a key found
is registered under an id equal to it, and `null` finds nothing.
-/

namespace Loot.Registry

/-- The entries of a registry ascend strictly by id. -/
def Sorted (r : Registry) : Prop := r.entries.Pairwise fun a b => a.1 < b.1

variable {r : Registry} {id : Int} {slot : Nat}

/-! ## Inserting -/

theorem mem_insertEntry_self (es : List (Int × Nat)) : (id, slot) ∈ insertEntry id slot es := by
  induction es with
  | nil => simp [insertEntry]
  | cons f es ih =>
    simp only [insertEntry]
    split_ifs <;> simp [ih]

/-- An entry after inserting is the new one or an entry that was there. -/
theorem mem_insertEntry_cases {es : List (Int × Nat)} {e : Int × Nat}
    (h : e ∈ insertEntry id slot es) : e = (id, slot) ∨ e ∈ es := by
  induction es with
  | nil => simpa [insertEntry] using h
  | cons f es ih =>
    simp only [insertEntry] at h
    split_ifs at h with hlt heq
    · simpa using h
    · simp only [List.mem_cons] at h
      rcases h with h | h
      · exact .inl h
      · exact .inr (List.mem_cons_of_mem f h)
    · simp only [List.mem_cons] at h
      rcases h with h | h
      · exact .inr (h ▸ List.mem_cons_self)
      · rcases ih h with h' | h'
        · exact .inl h'
        · exact .inr (List.mem_cons_of_mem f h')

/-- Inserting keeps the entries of the other ids. -/
theorem mem_insertEntry_of_ne {es : List (Int × Nat)} {e : Int × Nat} (he : e ∈ es)
    (hne : e.1 ≠ id) : e ∈ insertEntry id slot es := by
  induction es with
  | nil => simp at he
  | cons f es ih =>
    simp only [insertEntry]
    rcases List.mem_cons.1 he with rfl | he'
    · split_ifs with hlt heq
      · simp
      · exact absurd heq.symm hne
      · simp
    · split_ifs <;> simp [he', ih he']

/-- Inserting keeps the ids ascending. -/
theorem sorted_insertEntry {es : List (Int × Nat)} (h : es.Pairwise fun a b => a.1 < b.1) :
    (insertEntry id slot es).Pairwise fun a b => a.1 < b.1 := by
  induction es with
  | nil => simp [insertEntry]
  | cons f es ih =>
    obtain ⟨hf, hes⟩ := List.pairwise_cons.1 h
    simp only [insertEntry]
    split_ifs with hlt heq
    · refine List.Pairwise.cons (fun x hx => ?_) h
      rcases List.mem_cons.1 hx with rfl | hx
      · exact hlt
      · exact Int.lt_trans hlt (hf x hx)
    · refine List.Pairwise.cons (fun x hx => ?_) hes
      rw [heq]
      exact hf x hx
    · refine List.Pairwise.cons (fun x hx => ?_) (ih hes)
      rcases mem_insertEntry_cases hx with rfl | hx
      · show f.1 < id
        omega
      · exact hf x hx

theorem Sorted.insert (h : r.Sorted) : (r.insert id slot).Sorted := sorted_insertEntry h

/-! ## Erasing -/

theorem mem_erase {e : Int × Nat} : e ∈ (r.erase id).entries ↔ e ∈ r.entries ∧ e.1 ≠ id := by
  simp [erase]

theorem Sorted.erase (h : r.Sorted) : (r.erase id).Sorted := List.Pairwise.filter _ h

/-! ## Looking up -/

theorem mem_of_find?_eq_some (h : r.find? id = some slot) : (id, slot) ∈ r.entries := by
  simp only [Registry.find?, Option.map_eq_some_iff] at h
  obtain ⟨e, he, rfl⟩ := h
  have heq : e.1 = id := by simpa using List.find?_some he
  exact heq ▸ List.mem_of_find?_eq_some he

/-- In a sorted registry an id has one entry, so two entries of one id are the same. -/
theorem Sorted.eq_of_mem (h : r.Sorted) {a b : Int × Nat} (ha : a ∈ r.entries)
    (hb : b ∈ r.entries) (hab : a.1 = b.1) : a = b := by
  unfold Sorted at h
  generalize r.entries = es at h ha hb
  induction es with
  | nil => simp at ha
  | cons f es ih =>
    obtain ⟨hf, hes⟩ := List.pairwise_cons.1 h
    rcases List.mem_cons.1 ha with rfl | ha'
    · rcases List.mem_cons.1 hb with rfl | hb'
      · rfl
      · exact absurd hab (Int.ne_of_lt (hf b hb'))
    · rcases List.mem_cons.1 hb with rfl | hb'
      · exact absurd hab.symm (Int.ne_of_lt (hf a ha'))
      · exact ih hes ha' hb'

/-- In a sorted registry finding an id answers the slot of its entry. -/
theorem Sorted.find?_eq_some_iff (h : r.Sorted) : r.find? id = some slot ↔ (id, slot) ∈ r.entries := by
  refine ⟨mem_of_find?_eq_some, fun hmem => ?_⟩
  obtain ⟨e, he⟩ : ∃ e, r.entries.find? (·.1 == id) = some e :=
    Option.isSome_iff_exists.1 (List.find?_isSome.2 ⟨_, hmem, by simp⟩)
  have heq : e.1 = id := by simpa using List.find?_some he
  have hsame := h.eq_of_mem (List.mem_of_find?_eq_some he) hmem heq
  simp [Registry.find?, he, hsame]

theorem contains_iff : r.contains id = true ↔ ∃ slot, (id, slot) ∈ r.entries := by
  simp [contains]

theorem size_eq_length_slots : r.size = r.slots.length := by simp [size, slots]

/-! ## The next free id -/

/-- In a sorted registry the last entry holds the largest id. -/
theorem Sorted.le_getLast (h : r.Sorted) {l : Int × Nat} (hl : r.entries.getLast? = some l) :
    ∀ e ∈ r.entries, e.1 ≤ l.1 := by
  obtain ⟨ys, hys⟩ := List.getLast?_eq_some_iff.1 hl
  unfold Sorted at h
  rw [hys] at h ⊢
  intro e he
  rcases List.mem_append.1 he with he | he
  · exact Int.le_of_lt ((List.pairwise_append.1 h).2.2 e he l (by simp))
  · simp only [List.mem_singleton] at he
    subst he
    exact Int.le_refl _

/-- The next free id of a sorted registry is above every registered id. -/
theorem Sorted.lt_nextId (h : r.Sorted) : ∀ e ∈ r.entries, e.1 < r.nextId := by
  intro e he
  unfold nextId
  split
  · rename_i l hl
    have := h.le_getLast hl e he
    omega
  · rename_i hl
    simp_all

/-- The next free id of a sorted registry is never registered. -/
theorem Sorted.nextId_not_contains (h : r.Sorted) : r.contains r.nextId = false := by
  rw [Bool.eq_false_iff]
  intro hc
  obtain ⟨s, hs⟩ := contains_iff.1 hc
  exact Int.lt_irrefl _ (h.lt_nextId _ hs)

end Loot.Registry

namespace Loot

open Loot.Json

/-- Two integers are the same key exactly when they are equal. -/
@[simp]
theorem sameKey_int_int (a b : Int) : Value.sameKey (.int a) (.int b) = decide (a = b) := by
  by_cases h : a = b
  · simp [Value.sameKey, Value.toNum?, Num.compare?, h]
  · have hne : compare a b ≠ .eq := fun he => h (Int.compare_eq_eq.1 he)
    simp [Value.sameKey, Value.toNum?, Num.compare?, h, hne]

@[simp]
theorem sameKey_null_int (b : Int) : Value.sameKey .null (.int b) = false := by
  simp [Value.sameKey, Value.toNum?]

namespace Catalog

variable {c : Catalog} {k : Kind} {v : Value} {slot : Nat}

theorem lookupEntry_eq_ok {o : Option (Int × Nat)} :
    c.lookupEntry k v = .ok o ↔
      v.checkKey = .ok () ∧ o = (c.registry k).entries.find? fun e => v.sameKey (.int e.1) := by
  unfold lookupEntry
  cases v.checkKey with
  | error e => exact ⟨fun h => (nomatch h), fun h => (nomatch h.1)⟩
  | ok u => simp [pure, Except.pure, eq_comm]

/-- A key that is required successfully is a key value, and the first entry whose id equals it
gives the slot. -/
theorem require_eq_ok :
    c.require k v = .ok slot ↔ v.checkKey = .ok () ∧
      ∃ key, ((c.registry k).entries.find? fun e => v.sameKey (.int e.1)) = some (key, slot) := by
  unfold require lookup lookupEntry
  cases v.checkKey with
  | error e => exact ⟨fun h => (nomatch h), fun h => (nomatch h.1)⟩
  | ok u =>
    simp only [pure, Except.pure, except_ok_bind, Functor.map, Except.map, true_and]
    cases hf : (c.registry k).entries.find? fun e => v.sameKey (.int e.1) with
    | none =>
      refine ⟨fun h => ?_, fun ⟨_, h⟩ => (nomatch h)⟩
      -- a missing key fails, whether or not it can be written
      cases hv : v.formatted 2 <;> simp [hv] at h
    | some e =>
      simp only [Option.map_some, Option.some.injEq]
      constructor
      · intro h
        cases h
        exact ⟨e.1, rfl⟩
      · rintro ⟨key, rfl⟩
        rfl

/-- A key that is required successfully equals the id of a registered entry of that slot. -/
theorem mem_of_require_eq_ok (h : c.require k v = .ok slot) :
    ∃ key, (key, slot) ∈ (c.registry k).entries ∧ v.sameKey (.int key) = true := by
  obtain ⟨-, key, hf⟩ := require_eq_ok.1 h
  exact ⟨key, List.mem_of_find?_eq_some hf, by simpa using List.find?_some hf⟩

theorem checkKey_of_require_eq_ok (h : c.require k v = .ok slot) : v.checkKey = .ok () :=
  (require_eq_ok.1 h).1

/-- `null` is no registered key. -/
theorem require_null_ne_ok : c.require k .null ≠ .ok slot := by
  intro h
  obtain ⟨key, -, hkey⟩ := mem_of_require_eq_ok h
  simp at hkey

/-- An integer key of a sorted registry requires exactly the slot of its entry. -/
theorem require_int_eq_ok_iff {n : Int} (hs : (c.registry k).Sorted) :
    c.require k (.int n) = .ok slot ↔ (n, slot) ∈ (c.registry k).entries := by
  constructor
  · intro h
    obtain ⟨key, hmem, hkey⟩ := mem_of_require_eq_ok h
    simp only [sameKey_int_int, decide_eq_true_eq] at hkey
    rw [hkey]
    exact hmem
  · intro hmem
    refine require_eq_ok.2 ⟨rfl, ?_⟩
    obtain ⟨e, he⟩ : ∃ e, ((c.registry k).entries.find? fun e => Value.sameKey (.int n) (.int e.1)) = some e :=
      Option.isSome_iff_exists.1 (List.find?_isSome.2 ⟨_, hmem, by simp⟩)
    have hid : n = e.1 := by simpa using List.find?_some he
    have hsame := hs.eq_of_mem hmem (List.mem_of_find?_eq_some he) hid
    exact ⟨n, by rw [he, ← hsame]⟩

end Catalog

end Loot
