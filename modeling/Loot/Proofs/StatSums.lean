import Loot.Stat
import Loot.Proofs.FloatBits
import Loot.Proofs.Draw

/-!
# Sums of stat lists

A list the library builds holds each stat once and no zero total (`StatList.Sparse`). Since adding
a zero to a double that is not a zero gives it back, re-adding a sparse list's entries to the empty
list rebuilds it (`empty_addAll`). From this: the totals and order of a sum
(`append_totals_and_order`), combining as repeated sums (`combine_eq_foldl_append`), and records
that read back (`ofValue_toValue`).
-/

namespace Loot.StatList

open Loot.Decimal Loot.Json

/-- The stats of a list, in order. -/
def stats (l : StatList) : List Stat := l.entries.map (·.1)

/-- The total of a stat, zero when the stat is absent. -/
def total (l : StatList) (s : Stat) : Float := (l.get? s).getD 0.0

/-- A list holds each stat at most once, and none of its totals equals zero. -/
structure Sparse (l : StatList) : Prop where
  nodup : l.stats.Nodup
  ne_zero : ∀ e ∈ l.entries, (e.2 == 0) = false

variable {l a b : StatList} {s t : Stat} {v : Float}

@[simp]
theorem stats_mk (es : List (Stat × Float)) : stats ⟨es⟩ = es.map (·.1) := rfl

@[simp]
theorem mods_map_stat (l : StatList) : l.mods.map (·.stat) = l.stats := by
  simp [mods, stats]

theorem sparse_empty : empty.Sparse := ⟨List.nodup_nil, fun _ h => nomatch h⟩

/-! ## Looking a stat up -/

theorem get?_eq_none_iff : l.get? s = none ↔ s ∉ l.stats := by
  simp only [get?, Option.map_eq_none_iff, List.find?_eq_none, beq_iff_eq, stats, List.mem_map]
  constructor
  · rintro h ⟨e, he, rfl⟩
    exact h e he rfl
  · intro h e he hes
    exact h ⟨e, he, hes⟩

/-- In a list that holds each stat once, a stat's total is the one of its entry. -/
theorem get?_of_mem (h : l.stats.Nodup) {e : Stat × Float} (he : e ∈ l.entries) :
    l.get? e.1 = some e.2 := by
  obtain ⟨es⟩ := l
  induction es with
  | nil => cases he
  | cons x xs ih =>
    simp only [stats_mk, List.map_cons, List.nodup_cons] at h
    rcases List.mem_cons.1 he with rfl | hmem
    · simp [get?]
    · have hne : x.1 ≠ e.1 := fun hx => h.1 (hx ▸ List.mem_map_of_mem hmem)
      simpa [get?, hne] using ih h.2 hmem

theorem mem_of_get?_eq_some {x : Float} (h : l.get? t = some x) : (t, x) ∈ l.entries := by
  unfold get? at h
  cases hf : l.entries.find? (·.1 == t) with
  | none =>
    rw [hf] at h
    cases h
  | some e =>
    rw [hf] at h
    have hx : e.2 = x := Option.some.inj h
    have het : e.1 = t := by simpa using List.find?_some hf
    rw [← het, ← hx]
    exact List.mem_of_find?_eq_some hf

/-- A total that a sparse list holds is not zero. -/
theorem Sparse.get?_ne_zero (h : l.Sparse) {x : Float} (hx : l.get? t = some x) :
    (x == 0) = false :=
  h.ne_zero (t, x) (mem_of_get?_eq_some hx)

theorem total_of_not_mem (hs : s ∉ l.stats) : l.total s = 0.0 := by
  simp [total, get?_eq_none_iff.2 hs]

theorem total_cons (e : Stat × Float) (es : List (Stat × Float)) (t : Stat) :
    (⟨e :: es⟩ : StatList).total t = if e.1 = t then e.2 else (⟨es⟩ : StatList).total t := by
  by_cases h : e.1 = t <;> simp [total, get?, h]

/-! ## Adding a value

Adding drops a stat, sets it in place, or appends it; each of the three changes is looked up
first, and `get?_add` puts them together. -/

theorem get?_cons (e : Stat × Float) (es : List (Stat × Float)) (t : Stat) :
    (⟨e :: es⟩ : StatList).get? t = if e.1 = t then some e.2 else (⟨es⟩ : StatList).get? t := by
  by_cases h : e.1 = t <;> simp [get?, h]

theorem get?_filter_ne (es : List (Stat × Float)) (s t : Stat) :
    (⟨es.filter (·.1 != s)⟩ : StatList).get? t =
      if t = s then none else (⟨es⟩ : StatList).get? t := by
  induction es with
  | nil => simp [get?]
  | cons x xs ih =>
    rw [List.filter_cons, get?_cons]
    by_cases hx : x.1 = s
    · subst hx
      simp only [bne_self_eq_false, Bool.false_eq_true, if_false, ih]
      by_cases ht : t = x.1 <;> simp [ht, Ne.symm]
    · simp only [bne_iff_ne, ne_eq, hx, not_false_eq_true, if_true, get?_cons, ih]
      by_cases ht : t = s
      · subst ht
        simp [hx]
      · simp [ht]

theorem get?_map_set (es : List (Stat × Float)) (s t : Stat) (w : Float) :
    (⟨es.map fun e => if e.1 == s then (s, w) else e⟩ : StatList).get? t =
      if t = s then ((⟨es⟩ : StatList).get? s).map fun _ => w else (⟨es⟩ : StatList).get? t := by
  induction es with
  | nil => simp [get?]
  | cons x xs ih =>
    simp only [List.map_cons, get?_cons, ih]
    by_cases hx : x.1 = s
    · subst hx
      by_cases ht : t = x.1 <;> simp [ht, Ne.symm]
    · by_cases ht : t = s
      · subst ht
        simp [hx]
      · simp [hx, ht]

theorem get?_append_single (es : List (Stat × Float)) (s t : Stat) (w : Float) :
    (⟨es ++ [(s, w)]⟩ : StatList).get? t =
      if t = s then some (((⟨es⟩ : StatList).get? s).getD w) else (⟨es⟩ : StatList).get? t := by
  induction es with
  | nil => by_cases ht : t = s <;> simp [get?, ht, Ne.symm]
  | cons x xs ih =>
    simp only [List.cons_append, get?_cons, ih]
    by_cases hxt : x.1 = t
    · subst hxt
      by_cases hx : x.1 = s <;> simp [hx]
    · by_cases ht : t = s
      · subst ht
        simp [hxt]
      · simp [hxt, ht]

/-- Adding a value to a stat, with the new total and the presence of the stat spelled out. -/
theorem add_eq (l : StatList) (s : Stat) (v : Float) :
    l.add s v =
      if l.total s + v == 0 then ⟨l.entries.filter (·.1 != s)⟩
      else if s ∈ l.stats then
        ⟨l.entries.map fun e => if e.1 == s then (s, l.total s + v) else e⟩
      else ⟨l.entries ++ [(s, l.total s + v)]⟩ := by
  have hmem : (l.entries.any fun e => e.1 == s) = true ↔ s ∈ l.stats := by
    simp [stats]
  unfold add
  dsimp only
  by_cases hs : s ∈ l.stats
  · rw [if_pos (hmem.2 hs), if_pos hs]
    rfl
  · rw [if_neg (fun h => hs (hmem.1 h)), if_neg hs]
    rfl

/-- Adding `v` to a stat sets its total to the old total plus `v`, or drops the stat when that
comes to zero; every other stat keeps its total. -/
theorem get?_add (l : StatList) (s t : Stat) (v : Float) :
    (l.add s v).get? t =
      if t = s then (if l.total s + v == 0 then none else some (l.total s + v)) else l.get? t := by
  rw [add_eq]
  by_cases hz : (l.total s + v == 0) = true
  · rw [if_pos hz, get?_filter_ne]
    by_cases ht : t = s <;> simp [ht, hz]
  · rw [if_neg hz]
    by_cases hs : s ∈ l.stats
    · obtain ⟨x, hx⟩ := Option.ne_none_iff_exists'.1 (mt get?_eq_none_iff.1 (not_not.2 hs))
      rw [if_pos hs, get?_map_set]
      by_cases ht : t = s <;> simp [ht, hz, hx]
    · rw [if_neg hs, get?_append_single]
      by_cases ht : t = s <;> simp [ht, hz, get?_eq_none_iff.2 hs]

/-- Adding keeps the order of the stats: a dropped stat leaves it, an updated one keeps its
place, and a new one goes to the end. -/
theorem stats_add (l : StatList) (s : Stat) (v : Float) :
    (l.add s v).stats =
      if l.total s + v == 0 then l.stats.filter (· != s)
      else if s ∈ l.stats then l.stats else l.stats ++ [s] := by
  rw [add_eq]
  by_cases hz : (l.total s + v == 0) = true
  · rw [if_pos hz, if_pos hz, stats_mk, stats, List.filter_map]
    rfl
  · rw [if_neg hz, if_neg hz]
    by_cases hs : s ∈ l.stats
    · rw [if_pos hs, if_pos hs, stats_mk, List.map_map, stats]
      congr 1
      funext e
      by_cases he : e.1 = s <;> simp [he]
    · rw [if_neg hs, if_neg hs, stats_mk, List.map_append, stats]
      rfl

/-- An entry after adding is an entry from before, or the stat added with its new total, which
is not zero. -/
theorem mem_add_entries {e : Stat × Float} (h : e ∈ (l.add s v).entries) :
    e ∈ l.entries ∨ (e = (s, l.total s + v) ∧ (l.total s + v == 0) = false) := by
  rw [add_eq] at h
  by_cases hz : (l.total s + v == 0) = true
  · rw [if_pos hz] at h
    exact .inl (List.mem_filter.1 h).1
  · rw [if_neg hz] at h
    split at h
    · obtain ⟨e₀, he₀, rfl⟩ := List.mem_map.1 h
      by_cases hs : (e₀.1 == s) = true
      · exact .inr ⟨by simp [hs], by simpa using hz⟩
      · exact .inl (by simpa [hs] using he₀)
    · rcases List.mem_append.1 h with h | h
      · exact .inl h
      · exact .inr ⟨List.mem_singleton.1 h, by simpa using hz⟩

/-- Adding a value to a sparse list keeps it sparse. -/
theorem Sparse.add (h : l.Sparse) (s : Stat) (v : Float) : (l.add s v).Sparse := by
  refine ⟨?_, fun e he => ?_⟩
  · rw [stats_add]
    split_ifs with hz hs
    · exact h.nodup.sublist List.filter_sublist
    · exact h.nodup
    · exact List.nodup_append.2 ⟨h.nodup, List.nodup_singleton s, fun a ha b hb => by
        rw [List.mem_singleton.1 hb]
        rintro rfl
        exact hs ha⟩
  · rcases mem_add_entries he with he | ⟨rfl, hz⟩
    · exact h.ne_zero e he
    · exact hz

/-- Adding a stat that is absent with a value that is not zero appends it with that value. -/
theorem add_of_not_mem (hs : s ∉ l.stats) (hv : (v == 0) = false) :
    l.add s v = ⟨l.entries ++ [(s, v)]⟩ := by
  have htotal : l.total s + v = v := by
    rw [total_of_not_mem hs, float_zero_add hv]
  rw [add_eq, htotal, hv, if_neg Bool.false_ne_true, if_neg hs]

theorem total_add (l : StatList) (s t : Stat) (v : Float) :
    (l.add s v).total t =
      if t = s then (if l.total s + v == 0 then 0.0 else l.total s + v) else l.total t := by
  show ((l.add s v).get? t).getD 0.0 = _
  rw [get?_add]
  by_cases ht : t = s
  · by_cases hz : (l.total s + v == 0) = true <;> simp [ht, hz]
  · simp [ht, total]

/-! ## Adding lists -/

theorem addAll_cons (l : StatList) (e : Stat × Float) (es : List (Stat × Float)) :
    l.addAll ⟨e :: es⟩ = (l.add e.1 e.2).addAll ⟨es⟩ := rfl

/-- Adding any list to a sparse list keeps it sparse. -/
theorem Sparse.addAll (h : l.Sparse) (other : StatList) : (l.addAll other).Sparse := by
  obtain ⟨es⟩ := other
  induction es generalizing l with
  | nil => exact h
  | cons e es ih => exact ih (h.add e.1 e.2)

/-- Re-adding the entries of a sparse list, in order, to the empty list rebuilds the list: each
entry is new when it is added, and its total is not zero, so it is appended as it is. -/
theorem empty_addAll (h : l.Sparse) : empty.addAll l = l := by
  -- the entries already added form a prefix of the list, with the rest still to add
  suffices key : ∀ (pre rest : List (Stat × Float)), ((pre ++ rest).map (·.1)).Nodup →
      (∀ e ∈ rest, (e.2 == 0) = false) → (⟨pre⟩ : StatList).addAll ⟨rest⟩ = ⟨pre ++ rest⟩ from
    key [] l.entries h.nodup h.ne_zero
  intro pre rest
  induction rest generalizing pre with
  | nil => simp [addAll]
  | cons e rest ih =>
    intro hnd hne
    have hfresh : e.1 ∉ stats ⟨pre⟩ := by
      rw [List.map_append, List.map_cons] at hnd
      exact fun hmem => (List.nodup_append.1 hnd).2.2 _ hmem _ List.mem_cons_self rfl
    rw [addAll_cons, add_of_not_mem hfresh (hne e List.mem_cons_self), ih (pre ++ [e])
      (by simpa using hnd) (fun x hx => hne x (List.mem_cons_of_mem e hx))]
    simp

/-- Adding a list `b` to a sparse list `a` entry by entry: after its first entry `(s, v)` is
added, the sum of each stat's totals with the rest of `b` is zero exactly when its sum with the
whole of `b` is, and the same sum otherwise. -/
theorem sum_after_add {s : Stat} {v : Float} {es : List (Stat × Float)}
    (hs : s ∉ es.map (·.1)) (t : Stat) :
    ((a.add s v).total t + (⟨es⟩ : StatList).total t == 0) =
        (a.total t + (⟨(s, v) :: es⟩ : StatList).total t == 0) ∧
      ((a.total t + (⟨(s, v) :: es⟩ : StatList).total t == 0) = false →
        (a.add s v).total t + (⟨es⟩ : StatList).total t =
          a.total t + (⟨(s, v) :: es⟩ : StatList).total t) := by
  rw [total_add, total_cons]
  by_cases ht : t = s
  · subst ht
    rw [total_of_not_mem hs]
    by_cases hz : (a.total t + v == 0) = true
    · simp only [if_true, hz]
      exact ⟨rfl, fun h => nomatch h⟩
    · have hz' : (a.total t + v == 0) = false := by simpa using hz
      simp only [if_true, hz', Bool.false_eq_true, if_false]
      rw [float_add_zero hz']
      exact ⟨hz', fun _ => rfl⟩
  · simp [ht, Ne.symm ht]

/-- A sparse list holds a stat exactly when the stat's total plus zero is not zero, and then
holds that sum: a stat it lacks has the total zero, and a stat it holds a total that is not zero,
to which adding zero changes nothing. -/
theorem Sparse.get?_eq (ha : a.Sparse) (t : Stat) :
    a.get? t = if a.total t + 0.0 == 0 then none else some (a.total t + 0.0) := by
  cases hat : a.get? t with
  | none =>
    have h0 : a.total t = 0.0 := by simp [total, hat]
    have hzz : ((0.0 : Float) + 0.0 == 0) = true := by decide
    rw [h0, if_pos hzz]
  | some x =>
    have hx := ha.get?_ne_zero hat
    have h0 : a.total t = x := by simp [total, hat]
    rw [h0, float_add_zero hx, if_neg (by simp [hx])]

/-- Adding a list `b` to a sparse list `a` gives each stat the sum of its totals in the two,
each zero when absent, and drops it when that sum is zero. -/
theorem get?_addAll (ha : a.Sparse) (hb : b.stats.Nodup) (t : Stat) :
    (a.addAll b).get? t =
      if a.total t + b.total t == 0 then none else some (a.total t + b.total t) := by
  obtain ⟨es⟩ := b
  induction es generalizing a with
  | nil =>
    have hnil : (⟨[]⟩ : StatList).total t = 0.0 := total_of_not_mem (by simp)
    rw [hnil]
    exact ha.get?_eq t
  | cons e es ih =>
    obtain ⟨s, v⟩ := e
    have hb' : s ∉ es.map (·.1) ∧ (es.map (·.1)).Nodup := List.nodup_cons.1 hb
    obtain ⟨hzero, hsum⟩ := sum_after_add hb'.1 t
    rw [addAll_cons, ih (ha.add s v) hb'.2, hzero]
    split_ifs with hz
    · rfl
    · rw [hsum (by simpa using hz)]

/-- The stats of a sparse list `a` with a sparse list `b` added come in this order: those of
`a`, in order, less the ones whose sum is zero, then those of `b` that `a` lacks, in order. -/
theorem stats_addAll (ha : a.Sparse) (hb : b.Sparse) :
    (a.addAll b).stats =
      a.stats.filter (fun t => !(a.total t + b.total t == 0)) ++
        b.stats.filter (· ∉ a.stats) := by
  obtain ⟨es⟩ := b
  induction es generalizing a with
  | nil =>
    -- every stat of `a` has a total that is not zero, so none is filtered out
    have hnil : ∀ t, (⟨[]⟩ : StatList).total t = 0.0 := fun t => total_of_not_mem (by simp)
    simp only [hnil, stats_mk, List.map_nil, List.filter_nil, List.append_nil]
    change a.stats = _
    refine (List.filter_eq_self.2 fun t ht => ?_).symm
    have hsome : a.get? t ≠ none := mt get?_eq_none_iff.1 (not_not.2 ht)
    rw [ha.get?_eq t] at hsome
    split_ifs at hsome with hz
    · exact absurd rfl hsome
    · simpa using hz
  | cons e es ih =>
    obtain ⟨s, v⟩ := e
    have hb' : s ∉ es.map (·.1) ∧ (es.map (·.1)).Nodup := List.nodup_cons.1 hb.nodup
    have hes : (⟨es⟩ : StatList).Sparse :=
      ⟨hb'.2, fun x hx => hb.ne_zero x (List.mem_cons_of_mem _ hx)⟩
    have hv : (v == 0) = false := hb.ne_zero (s, v) List.mem_cons_self
    have hpred : (fun t => !((a.add s v).total t + (⟨es⟩ : StatList).total t == 0)) =
        fun t => !(a.total t + (⟨(s, v) :: es⟩ : StatList).total t == 0) :=
      funext fun t => by rw [(sum_after_add hb'.1 t).1]
    -- members of the rest of `b` are not `s`, so `s` joining or leaving `a` does not matter
    have hrest : ∀ (p : List Stat), (∀ t ∈ es.map (·.1), t ∈ p ↔ t ∈ a.stats) →
        (es.map (·.1)).filter (· ∉ p) = (es.map (·.1)).filter (· ∉ a.stats) :=
      fun p hp => List.filter_congr fun t ht => by simp [hp t ht]
    have hne : ∀ t ∈ es.map (·.1), t ≠ s := fun t ht hts => hb'.1 (hts ▸ ht)
    rw [addAll_cons, ih (ha.add s v) hes, hpred, stats_add]
    simp only [stats_mk, List.map_cons] at hrest ⊢
    by_cases hz : (a.total s + v == 0) = true
    · -- the stat is dropped: it was in `a`, since a new stat's sum is its value
      have hs : s ∈ a.stats := by
        by_contra hs
        rw [total_of_not_mem hs, float_zero_add hv, hv] at hz
        cases hz
      rw [if_pos hz, List.filter_filter, hrest _ fun t ht => by simp [hne t ht],
        List.filter_cons_of_neg (by simpa using hs)]
      congr 1
      refine List.filter_congr fun t _ => ?_
      by_cases hts : t = s
      · subst hts
        simp [total_cons, hz]
      · simp [hts]
    · rw [if_neg hz]
      by_cases hs : s ∈ a.stats
      · rw [if_pos hs, List.filter_cons_of_neg (by simpa using hs)]
      · rw [if_neg hs, List.filter_append, hrest _ fun t ht => by simp [hne t ht]]
        simp [total_cons, hz, hs]

/-! ## Building lists -/

theorem Sparse.foldl_addAll (h : l.Sparse) (ls : List StatList) :
    (ls.foldl StatList.addAll l).Sparse := by
  induction ls generalizing l with
  | nil => exact h
  | cons x xs ih => exact ih (h.addAll x)

/-- A combined list is sparse, whatever lists went into it. -/
theorem Sparse.combine (ls : List StatList) : (combine ls).Sparse :=
  sparse_empty.foldl_addAll ls

/-- A sum of lists is sparse, whatever lists went into it. -/
theorem Sparse.append (a b : StatList) : (a.append b).Sparse := Sparse.combine [a, b]

/-- A list of modifiers gives a sparse list. -/
theorem Sparse.ofModifiers (ms : List Modifier) : (ofModifiers ms).Sparse := by
  suffices key : ∀ acc : StatList, acc.Sparse →
      (ms.foldl (fun l m => l.add m.stat m.value) acc).Sparse from key empty sparse_empty
  induction ms with
  | nil => exact fun _ h => h
  | cons m ms ih => exact fun acc h => ih _ (h.add m.stat m.value)

/-- A list read from a record is sparse. -/
theorem Sparse.ofValue {raw : Value} (h : StatList.ofValue raw = .ok l) : l.Sparse := by
  unfold StatList.ofValue at h
  obtain ⟨ms, -, hfold⟩ := except_bind_eq_ok.1 h
  refine foldlM_inv Sparse ms (fun acc m _ acc' hacc hstep => ?_) sparse_empty hfold
  obtain ⟨s, -, hs⟩ := except_bind_eq_ok.1 hstep
  obtain ⟨v, -, hv⟩ := except_bind_eq_ok.1 hs
  rw [← except_pure_eq_ok.1 hv]
  exact hacc.add s v

/-! ## Sums and combinations -/

/-- The sum of a sparse list and any list adds the second list's entries to the first, since the
first list is rebuilt as it is. -/
theorem append_eq_addAll (ha : a.Sparse) (b : StatList) : a.append b = a.addAll b := by
  show (empty.addAll a).addAll b = a.addAll b
  rw [empty_addAll ha]

/-- The sum of two sparse lists holds, for each stat, the sum of its two totals (zero when
absent), and lacks the stats whose sum is zero, so that no total it holds is zero; its stats come
in the order of the first list, less those whose sum is zero, then those of the second list that
the first lacks, in their order. -/
theorem append_totals_and_order (ha : a.Sparse) (hb : b.Sparse) :
    (∀ s, (a.append b).get? s =
      let x := (a.get? s).getD 0.0 + (b.get? s).getD 0.0
      if x == 0 then none else some x) ∧
    (∀ e ∈ (a.append b).entries, (e.2 == 0) = false) ∧
    (a.append b).mods.map (·.stat) =
      (a.mods.map (·.stat)).filter (fun s => !((a.get? s).getD 0.0 + (b.get? s).getD 0.0 == 0)) ++
        (b.mods.map (·.stat)).filter (· ∉ a.mods.map (·.stat)) := by
  rw [append_eq_addAll ha]
  refine ⟨get?_addAll ha hb.nodup, (ha.addAll b).ne_zero, ?_⟩
  simp only [mods_map_stat]
  exact stats_addAll ha hb

/-- Two lists, one of which cancels a stat of the other: both are sparse, and their sum is as
`append_totals_and_order` says. -/
theorem append_totals_and_order_sample :
    (ofModifiers [⟨.health, 3.0⟩, ⟨.energy, 2.0⟩]).Sparse ∧
      (ofModifiers [⟨.resolve, 1.0⟩, ⟨.health, -3.0⟩]).Sparse ∧
      let a := ofModifiers [⟨.health, 3.0⟩, ⟨.energy, 2.0⟩]
      let b := ofModifiers [⟨.resolve, 1.0⟩, ⟨.health, -3.0⟩]
      (∀ s, (a.append b).get? s =
        let x := (a.get? s).getD 0.0 + (b.get? s).getD 0.0
        if x == 0 then none else some x) ∧
      (∀ e ∈ (a.append b).entries, (e.2 == 0) = false) ∧
      (a.append b).mods.map (·.stat) =
        (a.mods.map (·.stat)).filter
            (fun s => !((a.get? s).getD 0.0 + (b.get? s).getD 0.0 == 0)) ++
          (b.mods.map (·.stat)).filter (· ∉ a.mods.map (·.stat)) :=
  ⟨Sparse.ofModifiers _, Sparse.ofModifiers _,
    append_totals_and_order (Sparse.ofModifiers _) (Sparse.ofModifiers _)⟩

/-- Combining lists into one running list gives, entry for entry and in order, the list that
summing them one after another gives, each sum building a fresh list from the running total:
summing a sparse running list with the next list adds that list's entries to it, just as
combining does. -/
theorem combine_eq_foldl_append (ls : List StatList) : combine ls = ls.foldl append empty := by
  suffices key : ∀ acc : StatList, acc.Sparse → ls.foldl addAll acc = ls.foldl append acc from
    key empty sparse_empty
  induction ls with
  | nil => exact fun _ _ => rfl
  | cons x xs ih =>
    intro acc hacc
    rw [List.foldl_cons, List.foldl_cons, append_eq_addAll hacc, ih _ (hacc.addAll x)]

/-! ## Records -/

theorem ofValue_name (room : Nat) (s : Stat) :
    Stat.ofValue room (.str (Text.Chars.ofString s.name)) = .ok s := by
  cases s <;> rfl

/-- The record of a sparse list reads back as the list, entry for entry and in order. -/
theorem ofValue_toValue (h : l.Sparse) : StatList.ofValue l.toValue = .ok l := by
  -- reading adds the recorded totals, in order, to the empty list, which rebuilds the list
  suffices key : ∀ (es : List (Stat × Float)) (acc : StatList),
      (es.map fun e => (Text.Chars.ofString e.1.name, Value.float e.2)).foldlM
        (fun l m => do
          let s ← Stat.ofValue 4 (.str m.1)
          let v ← m.2.toFloat
          pure (l.add s v)) acc = .ok (acc.addAll ⟨es⟩) by
    have hkey := key l.entries empty
    rw [show (⟨l.entries⟩ : StatList) = l from rfl, empty_addAll h] at hkey
    exact hkey
  intro es
  induction es with
  | nil => exact fun _ => rfl
  | cons e es ih =>
    intro acc
    rw [List.map_cons, List.foldlM_cons, ofValue_name]
    exact ih _

end Loot.StatList
