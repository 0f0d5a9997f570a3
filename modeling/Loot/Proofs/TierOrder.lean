import Loot.Proofs.CatalogLoad

/-!
# Tier maps keep their shape

A tier map stores each tier under its own number, by strictly ascending number (`Ascending`).
Reading an affix record, inserting a tier and taking the tiers up to a bound all keep that shape:
a map read holds, under each number, the last tier read with it (`AffixDef.ofValue_tiers_shape`),
and `tier_maps_keep_their_shape` states the three together.
-/

namespace Loot

open Loot.Json

/-- The loop of a filter by a test that cannot fail: its accumulator holds the accepted elements
seen so far, last first. -/
theorem filterAuxM_pure {m : Type → Type} [Monad m] [LawfulMonad m] {α : Type} (p : α → Bool) :
    ∀ (xs acc : List α), List.filterAuxM (fun x => (pure (p x) : m Bool)) xs acc =
      pure ((xs.filter p).reverse ++ acc)
  | [], _ => rfl
  | x :: xs, acc => by
    rw [List.filterAuxM, pure_bind, filterAuxM_pure p xs]
    cases hx : p x <;> simp [hx]

/-- Filtering by a test that cannot fail keeps exactly the elements the test accepts. -/
theorem filterM_pure {m : Type → Type} [Monad m] [LawfulMonad m] {α : Type} (p : α → Bool)
    (xs : List α) : xs.filterM (fun x => (pure (p x) : m Bool)) = pure (xs.filter p) := by
  rw [List.filterM, filterAuxM_pure, pure_bind, List.append_nil, List.reverse_reverse]

/-- The same for a lookup: a test that always succeeds filters as the plain test does. -/
theorem filterM_ok {ε α : Type} (p : α → Bool) (xs : List α) :
    xs.filterM (fun x => (Except.ok (p x) : Except ε Bool)) = .ok (xs.filter p) :=
  filterM_pure p xs

/-- Comparing an integer with a value that stands for an integer is the integer comparison. -/
theorem Json.Value.compareFrom_le_int {v : Value} {k : Int} (h : v.toNum? = some (.int k))
    (n : Int) : Value.compareFrom .le (.int n) v = .ok (decide (n ≤ k)) := by
  rw [Value.compareFrom, h]
  simp only [Num.compare?, Option.any_some, Comparison.holds]
  by_cases hnk : n ≤ k
  · have hc : compare n k ≠ .gt := fun hc => Int.not_lt.2 hnk (Int.compare_eq_gt.1 hc)
    simp [hnk, hc]
  · have hc : compare n k = .gt := Int.compare_eq_gt.2 (Int.not_le.1 hnk)
    simp [hnk, hc]

namespace TierMap

/-- The tier stored under a number. -/
def get? (m : TierMap) (n : Int) : Option Tier := m.tiers.find? (·.number = n)

/-- The shape of a tier map: its tiers by strictly ascending number, so each number once. -/
def Ascending (m : TierMap) : Prop := m.tiers.Pairwise (·.number < ·.number)

@[simp]
theorem get?_empty (n : Int) : TierMap.empty.get? n = none := rfl

/-- In an ascending map every tier is found under its own number. -/
theorem Ascending.get?_number {m : TierMap} (hm : m.Ascending) {t : Tier} (ht : t ∈ m.tiers) :
    m.get? t.number = some t := by
  rcases m with ⟨ts⟩
  unfold Ascending at hm
  unfold get?
  induction ts with
  | nil => simp at ht
  | cons u us ih =>
    obtain ⟨hu, hus⟩ := List.pairwise_cons.1 hm
    rcases List.mem_cons.1 ht with rfl | ht'
    · simp
    · -- a tier after `u` has a larger number, so the search passes `u`
      have hne : u.number ≠ t.number := Int.ne_of_lt (hu t ht')
      simp [hne, ih hus ht']

/-- Inserting a tier puts it under its number and keeps every other number's tier; the list need
not be sorted for that, since the tiers passed before the insertion point have smaller numbers. -/
theorem find?_insertTier (t : Tier) (n : Int) : ∀ ts : List Tier,
    (insertTier t ts).find? (·.number = n) =
      if t.number = n then some t else ts.find? (·.number = n)
  | [] => by by_cases h : t.number = n <;> simp [insertTier, h]
  | u :: us => by
    unfold insertTier
    by_cases htn : t.number = n
    · -- the inserted tier is found first: every tier passed before it has a smaller number
      split_ifs with hlt heq
      · simp [htn]
      · simp [htn]
      · have hun : u.number ≠ n := by omega
        simp [hun, find?_insertTier t n us, htn]
    · split_ifs with hlt heq
      · simp [htn]
      · -- the replaced tier has the inserted tier's number, which is not `n`
        have hun : ¬ u.number = n := heq ▸ htn
        simp [htn, hun]
      · rw [List.find?_cons, List.find?_cons, find?_insertTier t n us, if_neg htn]

theorem get?_insert (m : TierMap) (t : Tier) (n : Int) :
    (m.insert t).get? n = if t.number = n then some t else m.get? n :=
  find?_insertTier t n m.tiers

theorem Ascending.insert {m : TierMap} (hm : m.Ascending) (t : Tier) : (m.insert t).Ascending :=
  sorted_insertTier hm

/-- After inserting tiers in order, a number holds the last tier inserted with that number, or
what it held before when none was. -/
theorem get?_foldl_insert (n : Int) : ∀ (ts : List Tier) (m : TierMap),
    (ts.foldl TierMap.insert m).get? n = (ts.reverse.find? (·.number = n)).or (m.get? n)
  | [], m => by simp
  | t :: ts, m => by
    rw [List.foldl_cons, get?_foldl_insert n ts, get?_insert, List.reverse_cons,
      List.find?_append, List.find?_singleton, Option.or_assoc]
    by_cases h : t.number = n <;> simp [h]

theorem Ascending.foldl_insert : ∀ (ts : List Tier) {m : TierMap}, m.Ascending →
    (ts.foldl TierMap.insert m).Ascending
  | [], _, hm => hm
  | t :: ts, _, hm => Ascending.foldl_insert ts (hm.insert t)

/-- Reading tiers inserts, one after the other, the tiers parsed from the members. -/
theorem foldlM_insert_eq_ok {room : Nat} {f : TierMap → Text.Chars × Value → Except Fault TierMap}
    (hf : ∀ m e m', f m e = .ok m' → ∃ t, Tier.ofValue room e.2 = .ok t ∧ m' = m.insert t) :
    ∀ (entries : List (Text.Chars × Value)) (m : TierMap) {m' : TierMap},
      entries.foldlM f m = .ok m' →
        ∃ ts, entries.mapM (fun e => Tier.ofValue room e.2) = .ok ts ∧
          m' = ts.foldl TierMap.insert m
  | [], m, m', h => by
    cases h
    exact ⟨[], rfl, rfl⟩
  | e :: es, m, m', h => by
    rw [List.foldlM_cons] at h
    obtain ⟨m₁, hstep, hrest⟩ := except_bind_eq_ok.1 h
    obtain ⟨t, ht, rfl⟩ := hf m e m₁ hstep
    obtain ⟨ts, hts, rfl⟩ := foldlM_insert_eq_ok hf es (m.insert t) hrest
    exact ⟨t :: ts, mapM_cons_eq_ok.2 ⟨t, ts, ht, hts, rfl⟩, rfl⟩

/-- The tiers read from an object are the tiers parsed from its members, inserted in member
order into the empty map. -/
theorem ofValue_eq_ok {room : Nat} {v : Value} {m : TierMap} (h : TierMap.ofValue room v = .ok m) :
    ∃ entries ts, v.entries = .ok entries ∧
      entries.mapM (fun e => Tier.ofValue room e.2) = .ok ts ∧
      m = ts.foldl TierMap.insert TierMap.empty := by
  unfold TierMap.ofValue at h
  obtain ⟨entries, hentries, hfold⟩ := except_bind_eq_ok.1 h
  obtain ⟨ts, hts, rfl⟩ := foldlM_insert_eq_ok (fun m e m' hstep => by
    obtain ⟨t, ht, hstep⟩ := except_bind_eq_ok.1 hstep
    obtain ⟨key, -, hstep⟩ := except_bind_eq_ok.1 hstep
    -- a key that does not read as the tier's number fails; otherwise the tier is inserted
    split at hstep
    · cases hstep
    · exact ⟨t, ht, (except_pure_eq_ok.1 hstep).symm⟩) entries _ hfold
  exact ⟨entries, ts, hentries, hts, rfl⟩

/-- The tiers up to a bound that stands for an integer are those numbered at most it, in order. -/
theorem upTo_int (m : TierMap) {v : Value} {k : Int} (h : v.toNum? = some (.int k)) :
    m.upTo v = .ok (m.tiers.filter (·.number ≤ k)) := by
  unfold upTo
  simp only [Value.compareFrom_le_int h]
  exact filterM_ok _ _

/-- In an ascending list the tiers numbered at most a bound come first. -/
theorem filter_eq_takeWhile {ts : List Tier} (h : ts.Pairwise (·.number < ·.number)) (k : Int) :
    ts.filter (·.number ≤ k) = ts.takeWhile (·.number ≤ k) := by
  induction ts with
  | nil => rfl
  | cons u us ih =>
    obtain ⟨hu, hus⟩ := List.pairwise_cons.1 h
    by_cases huk : u.number ≤ k
    · simp [huk, ih hus]
    · -- every later tier is numbered above `u`, hence above the bound
      have hrest : us.filter (·.number ≤ k) = [] :=
        List.filter_eq_nil_iff.2 fun x hx => by have := hu x hx; simp; omega
      simp [huk, hrest]

/-- The tiers of an ascending map up to an integer bound are the prefix of its tiers numbered at
most the bound, and no later tier is numbered so. -/
theorem upTo_of_ascending {m : TierMap} (hm : m.Ascending) (u : Int) :
    m.upTo (.int u) = .ok (m.tiers.takeWhile (·.number ≤ u)) ∧
      m.tiers.takeWhile (·.number ≤ u) = m.tiers.filter (·.number ≤ u) := by
  have hfilter := filter_eq_takeWhile hm u
  exact ⟨by rw [upTo_int m rfl, hfilter], hfilter.symm⟩

/-- Inserting into an ascending map keeps it ascending, puts the tier under its number, and leaves
the tier of every other number as it was. -/
theorem insert_shape {m : TierMap} (hm : m.Ascending) (t : Tier) :
    (m.insert t).Ascending ∧
      ∀ n, (m.insert t).get? n = if t.number = n then some t else m.get? n :=
  ⟨hm.insert t, get?_insert m t⟩

end TierMap

/-- The tiers of an affix read from a record are read from its `tiers` member. -/
theorem AffixDef.ofValue_tiers {room : Nat} {raw : Value} {id : Int} {d : AffixDef}
    (h : AffixDef.ofValue room raw = .ok (id, d)) :
    ∃ tiers, raw.member "tiers" = .ok tiers ∧ TierMap.ofValue (room - 1) tiers = .ok d.tiers := by
  unfold AffixDef.ofValue at h
  rw [asMalformed_eq_ok] at h
  obtain ⟨tv, htv, h₁⟩ := except_bind_eq_ok.1 h
  obtain ⟨tiers, htiers, h₂⟩ := except_bind_eq_ok.1 h₁
  obtain ⟨iv, -, h₃⟩ := except_bind_eq_ok.1 h₂
  obtain ⟨id', -, h₄⟩ := except_bind_eq_ok.1 h₃
  obtain ⟨pv, -, h₅⟩ := except_bind_eq_ok.1 h₄
  obtain ⟨p, -, h₆⟩ := except_bind_eq_ok.1 h₅
  obtain ⟨nv, -, h₇⟩ := except_bind_eq_ok.1 h₆
  obtain ⟨name, -, h₈⟩ := except_bind_eq_ok.1 h₇
  simp only [except_pure_eq_ok, Prod.mk.injEq] at h₈
  obtain ⟨-, rfl⟩ := h₈
  exact ⟨tv, htv, htiers⟩

/-- The tier map of an affix read from a record is ascending, every tier in it is stored under its
own number, and under each number it holds the tier parsed from the last member of the record's
`tiers` object whose tier has that number. -/
theorem AffixDef.ofValue_tiers_shape {room : Nat} {raw : Value} {id : Int} {d : AffixDef}
    (h : AffixDef.ofValue room raw = .ok (id, d)) :
    ∃ tiers entries ts, raw.member "tiers" = .ok tiers ∧ tiers.entries = .ok entries ∧
      entries.mapM (fun e => Tier.ofValue (room - 1) e.2) = .ok ts ∧ d.tiers.Ascending ∧
      (∀ t ∈ d.tiers.tiers, d.tiers.get? t.number = some t) ∧
      ∀ n, d.tiers.get? n = ts.reverse.find? (·.number = n) := by
  obtain ⟨tiers, htiers, hread⟩ := AffixDef.ofValue_tiers h
  obtain ⟨entries, ts, hentries, hts, hd⟩ := TierMap.ofValue_eq_ok hread
  have hasc : d.tiers.Ascending := hd ▸ TierMap.Ascending.foldl_insert ts List.Pairwise.nil
  refine ⟨tiers, entries, ts, htiers, hentries, hts, hasc, fun t ht => hasc.get?_number ht,
    fun n => ?_⟩
  rw [hd, TierMap.get?_foldl_insert, TierMap.get?_empty, Option.or_none]

/-- Tier maps keep their shape: a map read from a record is ascending, stores each tier under its
own number and keeps, for each number, the last tier read with it; inserting into an ascending map
keeps it ascending and replaces exactly the tier of the inserted number; and the tiers of an
ascending map up to a bound are the prefix of its tiers numbered at most the bound. -/
theorem tier_maps_keep_their_shape :
    (∀ {room : Nat} {raw : Value} {id : Int} {d : AffixDef},
      AffixDef.ofValue room raw = .ok (id, d) →
      ∃ tiers entries ts, raw.member "tiers" = .ok tiers ∧ tiers.entries = .ok entries ∧
        entries.mapM (fun e => Tier.ofValue (room - 1) e.2) = .ok ts ∧ d.tiers.Ascending ∧
        (∀ t ∈ d.tiers.tiers, d.tiers.get? t.number = some t) ∧
        ∀ n, d.tiers.get? n = ts.reverse.find? (·.number = n)) ∧
    (∀ (m : TierMap) (t : Tier), m.Ascending →
      (m.insert t).Ascending ∧
        ∀ n, (m.insert t).get? n = if t.number = n then some t else m.get? n) ∧
    (∀ (m : TierMap) (u : Int), m.Ascending →
      m.upTo (.int u) = .ok (m.tiers.takeWhile (·.number ≤ u)) ∧
        m.tiers.takeWhile (·.number ≤ u) = m.tiers.filter (·.number ≤ u)) :=
  ⟨AffixDef.ofValue_tiers_shape, fun _ t hm => TierMap.insert_shape hm t,
    fun _ u hm => TierMap.upTo_of_ascending hm u⟩

end Loot
