import Loot.Catalog.Files
import Loot.Proofs.Coherence
import Mathlib.Tactic.SplitIfs

/-!
# Loading gives a coherent catalog

Each loading step stores a record's definition in a new slot and registers it under a free id; the
slots registered before keep their definitions and the new references were resolved before, so the
step keeps the catalog coherent (`Loaded.load_step`). Loading also keeps what the readers check:
non-negative integer weights and tiers by ascending number.
-/

namespace Loot

open Loot.Json

/-! ## Reading records -/

/-- Reading a record succeeds exactly as its reading steps do: only failures are rewritten. -/
theorem asMalformed_eq_ok {α : Type} {room : Nat} {kind : Kind} {expected : List Builtin}
    {raw : Value} {x : Except Fault α} {a : α} :
    asMalformed room kind expected raw x = .ok a ↔ x = .ok a := by
  cases x with
  | ok b => exact Iff.rfl
  | error e =>
    refine ⟨fun h => ?_, fun h => nomatch h⟩
    cases e with
    | builtin cls m =>
      simp only [asMalformed] at h
      split at h
      · -- a malformed-record failure, or the failure to quote the id for its message
        cases hid : (recordId raw).formatted room <;> simp [hid] at h
      · cases h
    | _ => cases h

namespace TierMap

theorem mem_insertTier_cases {t u : Tier} {ts : List Tier} (h : u ∈ insertTier t ts) :
    u = t ∨ u ∈ ts := by
  induction ts with
  | nil => simpa [insertTier] using h
  | cons v ts ih =>
    simp only [insertTier] at h
    split_ifs at h with hlt heq
    · simpa using h
    · simp only [List.mem_cons] at h
      rcases h with h | h
      · exact .inl h
      · exact .inr (List.mem_cons_of_mem v h)
    · simp only [List.mem_cons] at h
      rcases h with h | h
      · exact .inr (h ▸ List.mem_cons_self)
      · rcases ih h with h' | h'
        · exact .inl h'
        · exact .inr (List.mem_cons_of_mem v h')

/-- Inserting a tier keeps the numbers ascending. -/
theorem sorted_insertTier {t : Tier} {ts : List Tier}
    (h : ts.Pairwise fun a b => a.number < b.number) :
    (insertTier t ts).Pairwise fun a b => a.number < b.number := by
  induction ts with
  | nil => simp [insertTier]
  | cons v ts ih =>
    obtain ⟨hv, hts⟩ := List.pairwise_cons.1 h
    simp only [insertTier]
    split_ifs with hlt heq
    · refine List.Pairwise.cons (fun x hx => ?_) h
      rcases List.mem_cons.1 hx with rfl | hx
      · exact hlt
      · exact Int.lt_trans hlt (hv x hx)
    · refine List.Pairwise.cons (fun x hx => ?_) hts
      rw [heq]
      exact hv x hx
    · refine List.Pairwise.cons (fun x hx => ?_) (ih hts)
      rcases mem_insertTier_cases hx with rfl | hx
      · omega
      · exact hv x hx

/-- The tiers read from a record come by strictly ascending number: each is inserted in turn. -/
theorem ofValue_sorted {room : Nat} {v : Value} {m : TierMap}
    (h : TierMap.ofValue room v = .ok m) :
    m.tiers.Pairwise fun a b => a.number < b.number := by
  unfold TierMap.ofValue at h
  obtain ⟨entries, -, hfold⟩ := except_bind_eq_ok.1 h
  refine foldlM_inv (fun m : TierMap => m.tiers.Pairwise fun a b => a.number < b.number) entries
    ?_ List.Pairwise.nil hfold
  intro m entry _ m' hm hstep
  obtain ⟨t, -, hstep⟩ := except_bind_eq_ok.1 hstep
  obtain ⟨key, -, hstep⟩ := except_bind_eq_ok.1 hstep
  -- a key that does not read as the tier's number fails; otherwise the tier is inserted
  split at hstep
  · cases hstep
  · cases except_pure_eq_ok.1 hstep
    exact sorted_insertTier hm

end TierMap

/-- An affix read from a record has the id read, and its tiers by strictly ascending number. -/
theorem AffixDef.ofValue_eq_ok {room : Nat} {raw : Value} {id : Int} {d : AffixDef}
    (h : AffixDef.ofValue room raw = .ok (id, d)) :
    d.id = .int id ∧ d.tiers.tiers.Pairwise fun t u => t.number < u.number := by
  unfold AffixDef.ofValue at h
  rw [asMalformed_eq_ok] at h
  obtain ⟨tv, -, h₁⟩ := except_bind_eq_ok.1 h
  obtain ⟨tiers, htiers, h₂⟩ := except_bind_eq_ok.1 h₁
  obtain ⟨iv, -, h₃⟩ := except_bind_eq_ok.1 h₂
  obtain ⟨id', -, h₄⟩ := except_bind_eq_ok.1 h₃
  obtain ⟨pv, -, h₅⟩ := except_bind_eq_ok.1 h₄
  obtain ⟨p, -, h₆⟩ := except_bind_eq_ok.1 h₅
  obtain ⟨nv, -, h₇⟩ := except_bind_eq_ok.1 h₆
  obtain ⟨name, -, h₈⟩ := except_bind_eq_ok.1 h₇
  simp only [except_pure_eq_ok, Prod.mk.injEq] at h₈
  obtain ⟨rfl, rfl⟩ := h₈
  exact ⟨rfl, TierMap.ofValue_sorted htiers⟩

/-- A pool or loot pool record weighs every member by a non-negative integer: a negative weight
fails the reading. -/
theorem WeightedRecord.ofValue_nonneg {room : Nat} {kind : Kind} {key : String} {raw : Value}
    {r : WeightedRecord} (h : WeightedRecord.ofValue room kind key raw = .ok r) :
    ∀ m ∈ r.members, 0 ≤ m.2 := by
  unfold WeightedRecord.ofValue at h
  rw [asMalformed_eq_ok] at h
  obtain ⟨mv, -, h₁⟩ := except_bind_eq_ok.1 h
  obtain ⟨ms, -, h₂⟩ := except_bind_eq_ok.1 h₁
  obtain ⟨members, hmembers, h₃⟩ := except_bind_eq_ok.1 h₂
  obtain ⟨iv, -, h₄⟩ := except_bind_eq_ok.1 h₃
  obtain ⟨id, -, h₅⟩ := except_bind_eq_ok.1 h₄
  obtain ⟨nv, -, h₆⟩ := except_bind_eq_ok.1 h₅
  obtain ⟨name, -, h₇⟩ := except_bind_eq_ok.1 h₆
  cases except_pure_eq_ok.1 h₇
  intro m hm
  obtain ⟨mraw, -, hread⟩ := exists_of_mapM_eq_ok hmembers m hm
  obtain ⟨wv, -, hread₁⟩ := except_bind_eq_ok.1 hread
  obtain ⟨w, -, hread₂⟩ := except_bind_eq_ok.1 hread₁
  split at hread₂
  · cases hread₂
  · rename_i hw
    obtain ⟨rv, -, hread₃⟩ := except_bind_eq_ok.1 hread₂
    obtain ⟨a, -, hread₄⟩ := except_bind_eq_ok.1 hread₃
    cases except_pure_eq_ok.1 hread₄
    exact Int.not_lt.1 hw

/-- A resolved reference is registered. -/
theorem resolve_eq_ok {reg : Registry} {owner target : Kind} {ownerId id : Int} {s : Nat}
    (h : resolve reg owner ownerId target id = .ok s) : (id, s) ∈ reg.entries := by
  unfold resolve at h
  split at h
  · cases h
    exact Registry.mem_of_find?_eq_some ‹_›
  · cases h

/-- Members linked against a registry refer to registered definitions, each weighed by its
record's weight. -/
theorem registered_of_link_members {k : Kind} {reg : Registry} {owner target : Kind}
    {ownerId : Int} {xs : List (Int × Int)} {ms : List (Ref k × Value)}
    (h : xs.mapM (fun m => do
      pure ((⟨← resolve reg owner ownerId target m.1⟩ : Ref k), Value.int m.2)) = .ok ms) :
    ∀ m ∈ ms, (∃ key, (key, m.1.slot) ∈ reg.entries) ∧ ∃ x ∈ xs, m.2 = .int x.2 := by
  intro m hm
  obtain ⟨x, hx, hlink⟩ := exists_of_mapM_eq_ok h m hm
  obtain ⟨s, hs, hlink'⟩ := except_bind_eq_ok.1 hlink
  cases except_pure_eq_ok.1 hlink'
  exact ⟨⟨x.1, resolve_eq_ok hs⟩, x, hx, rfl⟩

/-- References linked against a registry are registered. -/
theorem registered_of_link_refs {k : Kind} {reg : Registry} {owner target : Kind}
    {ownerId : Int} {xs : List Int} {rs : List (Ref k)}
    (h : xs.mapM (fun p => do pure (⟨← resolve reg owner ownerId target p⟩ : Ref k)) = .ok rs) :
    ∀ r ∈ rs, ∃ key, (key, r.slot) ∈ reg.entries := by
  intro r hr
  obtain ⟨x, -, hlink⟩ := exists_of_mapM_eq_ok h r hr
  obtain ⟨s, hs, hlink'⟩ := except_bind_eq_ok.1 hlink
  cases except_pure_eq_ok.1 hlink'
  exact ⟨x, resolve_eq_ok hs⟩

/-- A linked pool has its record's id, and each member refers to an affix registered in the
registry it was linked against and is weighed by the weight of a member of the record. -/
theorem WeightedRecord.linkPool_eq_ok {r : WeightedRecord} {reg : Registry} {d : PoolDef}
    (h : r.linkPool reg = .ok d) :
    d.id = .int r.id ∧ ∀ m ∈ d.members, (∃ key, (key, m.1.slot) ∈ reg.entries) ∧
      ∃ x ∈ r.members, m.2 = .int x.2 := by
  unfold WeightedRecord.linkPool at h
  obtain ⟨members, hmembers, h₁⟩ := except_bind_eq_ok.1 h
  cases except_pure_eq_ok.1 h₁
  exact ⟨rfl, registered_of_link_members hmembers⟩

/-- A linked loot pool has its record's id, and each member refers to an item registered in the
registry it was linked against and is weighed by the weight of a member of the record. -/
theorem WeightedRecord.linkLootPool_eq_ok {r : WeightedRecord} {reg : Registry}
    {d : LootPoolDef} (h : r.linkLootPool reg = .ok d) :
    d.id = .int r.id ∧ ∀ m ∈ d.members, (∃ key, (key, m.1.slot) ∈ reg.entries) ∧
      ∃ x ∈ r.members, m.2 = .int x.2 := by
  unfold WeightedRecord.linkLootPool at h
  obtain ⟨members, hmembers, h₁⟩ := except_bind_eq_ok.1 h
  cases except_pure_eq_ok.1 h₁
  exact ⟨rfl, registered_of_link_members hmembers⟩

/-- A linked item has its record's id, and its pools and fixed affixes are registered in the
registries it was linked against. -/
theorem ItemRecord.link_eq_ok {r : ItemRecord} {affixes pools : Registry} {d : ItemDef}
    (h : r.link affixes pools = .ok d) :
    d.id = .int r.id ∧ (∀ p ∈ d.pools, ∃ key, (key, p.slot) ∈ pools.entries) ∧
      ∀ a ∈ d.fixed, ∃ key, (key, a.slot) ∈ affixes.entries := by
  unfold ItemRecord.link at h
  obtain ⟨ps, hps, h₁⟩ := except_bind_eq_ok.1 h
  obtain ⟨fs, hfs, h₂⟩ := except_bind_eq_ok.1 h₁
  cases except_pure_eq_ok.1 h₂
  exact ⟨rfl, registered_of_link_refs hps, registered_of_link_refs hfs⟩

namespace Catalog

variable {c c₁ : Catalog} {k : Kind} {s : Nat}

/-! ## Stored definitions -/

/-- The number of stored definitions of a kind. -/
def stored (c : Catalog) : Kind → Nat
  | .affix => c.affixes.size
  | .affixPool => c.pools.size
  | .item => c.items.size
  | .lootPool => c.lootPools.size

/-- A slot past the stored definitions holds the default definition, whose id is `null`. -/
theorem idAt_of_stored_le (h : c.stored k ≤ s) : c.idAt k s = .null := by
  cases k
  · simp only [idAt, affix, Array.getElem?_eq_none h, Option.getD_none]
    rfl
  · simp only [idAt, pool, Array.getElem?_eq_none h, Option.getD_none]
    rfl
  · simp only [idAt, item, Array.getElem?_eq_none h, Option.getD_none]
    rfl
  · simp only [idAt, lootPool, Array.getElem?_eq_none h, Option.getD_none]
    rfl

/-- A registered slot of a coherent catalog holds a stored definition. -/
theorem Coherent.lt_stored (hc : c.Coherent) (h : c.Registered k s) : s < c.stored k := by
  obtain ⟨key, hmem⟩ := h
  refine Nat.lt_of_not_le fun hle => ?_
  have hid := hc.idAt_of_registered hmem
  rw [idAt_of_stored_le hle] at hid
  cases hid

@[simp]
theorem storeAffix_registry (d : AffixDef) (k : Kind) :
    (c.storeAffix d).1.registry k = c.registry k := by
  cases k <;> rfl

@[simp]
theorem storePool_registry (d : PoolDef) (k : Kind) :
    (c.storePool d).1.registry k = c.registry k := by
  cases k <;> rfl

@[simp]
theorem storeItem_registry (d : ItemDef) (k : Kind) :
    (c.storeItem d).1.registry k = c.registry k := by
  cases k <;> rfl

@[simp]
theorem storeLootPool_registry (d : LootPoolDef) (k : Kind) :
    (c.storeLootPool d).1.registry k = c.registry k := by
  cases k <;> rfl

/-- Storing an affix keeps every definition of a coherent catalog in its slot. -/
theorem Coherent.agrees_storeAffix (hc : c.Coherent) (d : AffixDef) :
    c.Agrees (c.storeAffix d).1 := by
  refine ⟨storeAffix_registry d, fun s h => ?_, fun _ _ => rfl, fun _ _ => rfl, fun _ _ => rfl⟩
  have hlt : s < c.affixes.size := hc.lt_stored h
  simp only [storeAffix, affix, Array.getElem?_push_lt hlt, Array.getElem?_eq_getElem hlt]

theorem Coherent.agrees_storePool (hc : c.Coherent) (d : PoolDef) :
    c.Agrees (c.storePool d).1 := by
  refine ⟨storePool_registry d, fun _ _ => rfl, fun s h => ?_, fun _ _ => rfl, fun _ _ => rfl⟩
  have hlt : s < c.pools.size := hc.lt_stored h
  simp only [storePool, pool, Array.getElem?_push_lt hlt, Array.getElem?_eq_getElem hlt]

theorem Coherent.agrees_storeItem (hc : c.Coherent) (d : ItemDef) :
    c.Agrees (c.storeItem d).1 := by
  refine ⟨storeItem_registry d, fun _ _ => rfl, fun _ _ => rfl, fun s h => ?_, fun _ _ => rfl⟩
  have hlt : s < c.items.size := hc.lt_stored h
  simp only [storeItem, item, Array.getElem?_push_lt hlt, Array.getElem?_eq_getElem hlt]

theorem Coherent.agrees_storeLootPool (hc : c.Coherent) (d : LootPoolDef) :
    c.Agrees (c.storeLootPool d).1 := by
  refine ⟨storeLootPool_registry d, fun _ _ => rfl, fun _ _ => rfl, fun _ _ => rfl, fun s h => ?_⟩
  have hlt : s < c.lootPools.size := hc.lt_stored h
  simp only [storeLootPool, lootPool, Array.getElem?_push_lt hlt, Array.getElem?_eq_getElem hlt]

@[simp]
theorem affix_storeAffix_self (d : AffixDef) : (c.storeAffix d).1.affix ⟨(c.storeAffix d).2⟩ = d := by
  simp [storeAffix, affix]

@[simp]
theorem pool_storePool_self (d : PoolDef) : (c.storePool d).1.pool ⟨(c.storePool d).2⟩ = d := by
  simp [storePool, pool]

@[simp]
theorem item_storeItem_self (d : ItemDef) : (c.storeItem d).1.item ⟨(c.storeItem d).2⟩ = d := by
  simp [storeItem, item]

@[simp]
theorem lootPool_storeLootPool_self (d : LootPoolDef) :
    (c.storeLootPool d).1.lootPool ⟨(c.storeLootPool d).2⟩ = d := by
  simp [storeLootPool, lootPool]

@[simp]
theorem idAt_storeAffix_self (d : AffixDef) :
    (c.storeAffix d).1.idAt .affix (c.storeAffix d).2 = d.id := by
  simp [idAt]

@[simp]
theorem idAt_storePool_self (d : PoolDef) :
    (c.storePool d).1.idAt .affixPool (c.storePool d).2 = d.id := by
  simp [idAt]

@[simp]
theorem idAt_storeItem_self (d : ItemDef) :
    (c.storeItem d).1.idAt .item (c.storeItem d).2 = d.id := by
  simp [idAt]

@[simp]
theorem idAt_storeLootPool_self (d : LootPoolDef) :
    (c.storeLootPool d).1.idAt .lootPool (c.storeLootPool d).2 = d.id := by
  simp [idAt]

@[simp]
theorem refsAt_storeAffix_self (d : AffixDef) :
    (c.storeAffix d).1.refsAt .affix (c.storeAffix d).2 = [] := rfl

@[simp]
theorem refsAt_storePool_self (d : PoolDef) :
    (c.storePool d).1.refsAt .affixPool (c.storePool d).2 =
      d.members.map fun m => (.affix, m.1.slot) := by
  simp [refsAt]

@[simp]
theorem refsAt_storeItem_self (d : ItemDef) :
    (c.storeItem d).1.refsAt .item (c.storeItem d).2 =
      d.pools.map (fun p => (.affixPool, p.slot)) ++ d.fixed.map fun a => (.affix, a.slot) := by
  simp [refsAt]

@[simp]
theorem refsAt_storeLootPool_self (d : LootPoolDef) :
    (c.storeLootPool d).1.refsAt .lootPool (c.storeLootPool d).2 =
      d.members.map fun m => (.item, m.1.slot) := by
  simp [refsAt]

/-- References read off elements whose slots are registered are registered. -/
theorem registered_map {α : Type} {xs : List α} {slot : α → Nat}
    (h : ∀ x ∈ xs, ∃ key, (key, slot x) ∈ (c.registry k).entries) :
    ∀ r ∈ xs.map (fun x => (k, slot x)), c.Registered r.1 r.2 := by
  intro r hr
  obtain ⟨x, hx, rfl⟩ := List.mem_map.1 hr
  exact h x hx

@[simp]
theorem withRegistry_withRegistry (r r' : Registry) :
    (c.withRegistry k r).withRegistry k r' = c.withRegistry k r' := by
  cases k <;> rfl

/-! ## Loaded catalogs -/

/-- What loading guarantees of a registered definition besides coherence: an affix has its
tiers by strictly ascending number, and a pool or a loot pool weighs each member by a
non-negative integer. -/
def WellFormedAt (c : Catalog) : Kind → Nat → Prop
  | .affix, s => (c.affix ⟨s⟩).tiers.tiers.Pairwise fun t u => t.number < u.number
  | .affixPool, s => ∀ m ∈ (c.pool ⟨s⟩).members, ∃ w : Int, m.2 = .int w ∧ 0 ≤ w
  | .item, _ => True
  | .lootPool, s => ∀ m ∈ (c.lootPool ⟨s⟩).members, ∃ w : Int, m.2 = .int w ∧ 0 ≤ w

@[simp]
theorem wellFormedAt_withRegistry (r : Registry) (k' : Kind) (s : Nat) :
    (c.withRegistry k r).WellFormedAt k' s ↔ c.WellFormedAt k' s := by
  cases k <;> cases k' <;> rfl

theorem Agrees.wellFormedAt (hag : c.Agrees c₁) (h : c.Registered k s) :
    c₁.WellFormedAt k s ↔ c.WellFormedAt k s := by
  cases k
  · simp only [WellFormedAt, hag.affix s h]
  · simp only [WellFormedAt, hag.pool s h]
  · rfl
  · simp only [WellFormedAt, hag.lootPool s h]

/-- A catalog as loading leaves it: coherent, with every registered definition well formed. -/
structure Loaded (c : Catalog) : Prop where
  coherent : c.Coherent
  wellFormed : ∀ k, ∀ e ∈ (c.registry k).entries, c.WellFormedAt k e.2

/-- Registering a new definition as coherence allows keeps a catalog loaded when the definition
is well formed. -/
theorem Loaded.register (hl : c.Loaded) (hag : c.Agrees c₁) {id : Int}
    (hfresh : (c.registry k).contains id = false) (hid : c₁.idAt k s = .int id)
    (hrefs : ∀ r ∈ c₁.refsAt k s, c.Registered r.1 r.2) (hwf : c₁.WellFormedAt k s) :
    (c₁.withRegistry k ((c.registry k).insert id s)).Loaded := by
  refine ⟨hl.coherent.register hag hfresh hid hrefs, fun k' e he => ?_⟩
  rw [wellFormedAt_withRegistry]
  rcases mem_register hag he with ⟨rfl, rfl⟩ | he
  · exact hwf
  · exact (hag.wellFormedAt ⟨e.1, he⟩).2 (hl.wellFormed k' e he)

/-- One step of loading a registry of kind `k` into `reg`: the definition stored at `s` in `c₁`,
with the record's id, well formed and with registered references, is registered if its id is
free. -/
theorem Loaded.load_step {reg reg' : Registry} {id : Int} (hl : (c.withRegistry k reg).Loaded)
    (hag : (c.withRegistry k reg).Agrees (c₁.withRegistry k reg))
    (hid : c₁.idAt k s = .int id)
    (hrefs : ∀ r ∈ c₁.refsAt k s, (c.withRegistry k reg).Registered r.1 r.2)
    (hwf : c₁.WellFormedAt k s) (h : Catalog.register k reg id s = .ok reg') :
    (c₁.withRegistry k reg').Loaded := by
  unfold Catalog.register at h
  split at h
  · cases h
  · rename_i hfresh
    cases h
    have hfresh' : ((c.withRegistry k reg).registry k).contains id = false := by simpa using hfresh
    have hl' := hl.register hag hfresh' (by simpa using hid) (by simpa using hrefs)
      (by simpa using hwf)
    simpa using hl'

theorem withRegistry_registry (c : Catalog) (k : Kind) : c.withRegistry k (c.registry k) = c := by
  cases k <;> rfl

theorem Loaded.withRegistry_empty (hl : c.Loaded) (h : c.registry k = .empty) :
    (c.withRegistry k .empty).Loaded := by
  rw [← h, withRegistry_registry]
  exact hl

/-- The catalog without definitions is loaded: it registers nothing. -/
theorem empty_loaded : empty.Loaded := by
  have hnil : ∀ k, (empty.registry k).entries = [] := fun k => by cases k <;> rfl
  refine ⟨⟨fun k => ?_, fun k e he => ?_, fun k e he => ?_⟩, fun k e he => ?_⟩
  · show (empty.registry k).entries.Pairwise _
    rw [hnil]
    exact List.Pairwise.nil
  all_goals rw [hnil] at he; cases he

/-! ## Loading each registry -/

/-- Loading affix records into an empty affix registry keeps a catalog loaded; the catalog it
stores them in keeps every registry. -/
theorem loadAffixes_loaded {room : Nat} {raws : List Value} {c' : Catalog} {reg : Registry}
    (hl : c.Loaded) (hempty : c.registry .affix = .empty)
    (h : c.loadAffixes room raws = .ok (c', reg)) :
    (c'.withRegistry .affix reg).Loaded ∧ ∀ k, c'.registry k = c.registry k := by
  unfold loadAffixes at h
  refine foldlM_inv (fun acc : Catalog × Registry =>
      (acc.1.withRegistry .affix acc.2).Loaded ∧ ∀ k, acc.1.registry k = c.registry k) raws
    ?_ ⟨hl.withRegistry_empty hempty, fun _ => rfl⟩ h
  rintro ⟨ca, reg₀⟩ raw - ⟨ca', reg'⟩ ⟨hla, hrega⟩ hstep
  obtain ⟨⟨id, d⟩, hread, hstep⟩ := except_bind_eq_ok.1 hstep
  obtain ⟨reg₁, hreg, hstep⟩ := except_bind_eq_ok.1 hstep
  cases except_pure_eq_ok.1 hstep
  obtain ⟨hid, hsorted⟩ := AffixDef.ofValue_eq_ok hread
  refine ⟨Loaded.load_step hla (hla.coherent.agrees_storeAffix d) ?_ ?_ ?_ hreg, fun k => ?_⟩
  · show (ca.storeAffix d).1.idAt .affix (ca.storeAffix d).2 = .int id
    simpa using hid
  · show ∀ r ∈ (ca.storeAffix d).1.refsAt .affix (ca.storeAffix d).2, _
    simp
  · show (ca.storeAffix d).1.WellFormedAt .affix (ca.storeAffix d).2
    simpa [WellFormedAt] using hsorted
  · show (ca.storeAffix d).1.registry k = c.registry k
    simpa using hrega k

/-- Loading pool records, linked against the affix registry, into an empty pool registry keeps a
catalog loaded; the catalog it stores them in keeps every registry. -/
theorem loadPools_loaded {room : Nat} {raws : List Value} {c' : Catalog} {reg : Registry}
    (hl : c.Loaded) (hempty : c.registry .affixPool = .empty)
    (h : c.loadPools room c.affixIds raws = .ok (c', reg)) :
    (c'.withRegistry .affixPool reg).Loaded ∧ ∀ k, c'.registry k = c.registry k := by
  unfold loadPools at h
  obtain ⟨records, hrecords, hfold⟩ := except_bind_eq_ok.1 h
  refine foldlM_inv (fun acc : Catalog × Registry =>
      (acc.1.withRegistry .affixPool acc.2).Loaded ∧ ∀ k, acc.1.registry k = c.registry k) records
    ?_ ⟨hl.withRegistry_empty hempty, fun _ => rfl⟩ hfold
  rintro ⟨ca, reg₀⟩ r hr ⟨ca', reg'⟩ ⟨hla, hrega⟩ hstep
  obtain ⟨d, hlink, hstep⟩ := except_bind_eq_ok.1 hstep
  obtain ⟨reg₁, hreg, hstep⟩ := except_bind_eq_ok.1 hstep
  cases except_pure_eq_ok.1 hstep
  obtain ⟨hid, hmembers⟩ := WeightedRecord.linkPool_eq_ok hlink
  obtain ⟨raw, -, hread⟩ := exists_of_mapM_eq_ok hrecords r hr
  have hnn := WeightedRecord.ofValue_nonneg hread
  refine ⟨Loaded.load_step hla (hla.coherent.agrees_storePool d) ?_ ?_ ?_ hreg, fun k => ?_⟩
  · show (ca.storePool d).1.idAt .affixPool (ca.storePool d).2 = .int r.id
    simpa using hid
  · -- the members were linked against the affix registry, which loading pools keeps
    show ∀ x ∈ (ca.storePool d).1.refsAt .affixPool (ca.storePool d).2,
      (ca.withRegistry .affixPool reg₀).Registered x.1 x.2
    rw [refsAt_storePool_self]
    refine registered_map fun m hm => ?_
    rw [registry_withRegistry_of_ne _ (by simp), hrega]
    exact (hmembers m hm).1
  · show (ca.storePool d).1.WellFormedAt .affixPool (ca.storePool d).2
    simp only [WellFormedAt, pool_storePool_self]
    intro m hm
    obtain ⟨-, x, hx, hw⟩ := hmembers m hm
    exact ⟨x.2, hw, hnn x hx⟩
  · show (ca.storePool d).1.registry k = c.registry k
    simpa using hrega k

/-- Loading item records, linked against the affix and pool registries, into an empty item
registry keeps a catalog loaded; the catalog it stores them in keeps every registry. -/
theorem loadItems_loaded {room : Nat} {raws : List Value} {c' : Catalog} {reg : Registry}
    (hl : c.Loaded) (hempty : c.registry .item = .empty)
    (h : c.loadItems room c.affixIds c.poolIds raws = .ok (c', reg)) :
    (c'.withRegistry .item reg).Loaded ∧ ∀ k, c'.registry k = c.registry k := by
  unfold loadItems at h
  obtain ⟨records, -, hfold⟩ := except_bind_eq_ok.1 h
  refine foldlM_inv (fun acc : Catalog × Registry =>
      (acc.1.withRegistry .item acc.2).Loaded ∧ ∀ k, acc.1.registry k = c.registry k) records
    ?_ ⟨hl.withRegistry_empty hempty, fun _ => rfl⟩ hfold
  rintro ⟨ca, reg₀⟩ r - ⟨ca', reg'⟩ ⟨hla, hrega⟩ hstep
  obtain ⟨d, hlink, hstep⟩ := except_bind_eq_ok.1 hstep
  obtain ⟨reg₁, hreg, hstep⟩ := except_bind_eq_ok.1 hstep
  cases except_pure_eq_ok.1 hstep
  obtain ⟨hid, hpools, hfixed⟩ := ItemRecord.link_eq_ok hlink
  refine ⟨Loaded.load_step hla (hla.coherent.agrees_storeItem d) ?_ ?_ trivial hreg, fun k => ?_⟩
  · show (ca.storeItem d).1.idAt .item (ca.storeItem d).2 = .int r.id
    simpa using hid
  · -- the pools and fixed affixes were linked against registries that loading items keeps
    show ∀ x ∈ (ca.storeItem d).1.refsAt .item (ca.storeItem d).2,
      (ca.withRegistry .item reg₀).Registered x.1 x.2
    rw [refsAt_storeItem_self]
    intro x hx
    rcases List.mem_append.1 hx with hx | hx
    · refine registered_map (fun p hp => ?_) x hx
      rw [registry_withRegistry_of_ne _ (by simp), hrega]
      exact hpools p hp
    · refine registered_map (fun a ha => ?_) x hx
      rw [registry_withRegistry_of_ne _ (by simp), hrega]
      exact hfixed a ha
  · show (ca.storeItem d).1.registry k = c.registry k
    simpa using hrega k

/-- Loading loot pool records, linked against the item registry, into an empty loot pool
registry keeps a catalog loaded; the catalog it stores them in keeps every registry. -/
theorem loadLootPools_loaded {room : Nat} {raws : List Value} {c' : Catalog} {reg : Registry}
    (hl : c.Loaded) (hempty : c.registry .lootPool = .empty)
    (h : c.loadLootPools room c.itemIds raws = .ok (c', reg)) :
    (c'.withRegistry .lootPool reg).Loaded ∧ ∀ k, c'.registry k = c.registry k := by
  unfold loadLootPools at h
  obtain ⟨records, hrecords, hfold⟩ := except_bind_eq_ok.1 h
  refine foldlM_inv (fun acc : Catalog × Registry =>
      (acc.1.withRegistry .lootPool acc.2).Loaded ∧ ∀ k, acc.1.registry k = c.registry k) records
    ?_ ⟨hl.withRegistry_empty hempty, fun _ => rfl⟩ hfold
  rintro ⟨ca, reg₀⟩ r hr ⟨ca', reg'⟩ ⟨hla, hrega⟩ hstep
  obtain ⟨d, hlink, hstep⟩ := except_bind_eq_ok.1 hstep
  obtain ⟨reg₁, hreg, hstep⟩ := except_bind_eq_ok.1 hstep
  cases except_pure_eq_ok.1 hstep
  obtain ⟨hid, hmembers⟩ := WeightedRecord.linkLootPool_eq_ok hlink
  obtain ⟨raw, -, hread⟩ := exists_of_mapM_eq_ok hrecords r hr
  have hnn := WeightedRecord.ofValue_nonneg hread
  refine ⟨Loaded.load_step hla (hla.coherent.agrees_storeLootPool d) ?_ ?_ ?_ hreg, fun k => ?_⟩
  · show (ca.storeLootPool d).1.idAt .lootPool (ca.storeLootPool d).2 = .int r.id
    simpa using hid
  · -- the members were linked against the item registry, which loading loot pools keeps
    show ∀ x ∈ (ca.storeLootPool d).1.refsAt .lootPool (ca.storeLootPool d).2,
      (ca.withRegistry .lootPool reg₀).Registered x.1 x.2
    rw [refsAt_storeLootPool_self]
    refine registered_map fun m hm => ?_
    rw [registry_withRegistry_of_ne _ (by simp), hrega]
    exact (hmembers m hm).1
  · show (ca.storeLootPool d).1.WellFormedAt .lootPool (ca.storeLootPool d).2
    simp only [WellFormedAt, lootPool_storeLootPool_self]
    intro m hm
    obtain ⟨-, x, hx, hw⟩ := hmembers m hm
    exact ⟨x.2, hw, hnn x hx⟩
  · show (ca.storeLootPool d).1.registry k = c.registry k
    simpa using hrega k

/-- Loading the records of a kind into its empty registry keeps a catalog loaded and every other
registry as it was. -/
theorem loadKind_loaded {room : Nat} {raws : List Value} {c' : Catalog} (hl : c.Loaded)
    (hempty : c.registry k = .empty) (h : c.loadKind room k raws = .ok c') :
    c'.Loaded ∧ ∀ k', k' ≠ k → c'.registry k' = c.registry k' := by
  unfold loadKind at h
  -- each loader keeps the registries of the catalog it stores in; installing replaces one
  have hframe : ∀ {ca : Catalog} {reg : Registry}, (∀ k', ca.registry k' = c.registry k') →
      ∀ k', k' ≠ k → (ca.withRegistry k reg).registry k' = c.registry k' := by
    intro ca reg hreg k' hk'
    rw [registry_withRegistry_of_ne _ hk', hreg]
  cases k
  · obtain ⟨⟨ca, reg⟩, hload, hinstall⟩ := except_bind_eq_ok.1 h
    cases except_pure_eq_ok.1 hinstall
    obtain ⟨hl', hreg⟩ := loadAffixes_loaded hl hempty hload
    exact ⟨hl', hframe hreg⟩
  · obtain ⟨⟨ca, reg⟩, hload, hinstall⟩ := except_bind_eq_ok.1 h
    cases except_pure_eq_ok.1 hinstall
    obtain ⟨hl', hreg⟩ := loadPools_loaded hl hempty hload
    exact ⟨hl', hframe hreg⟩
  · obtain ⟨⟨ca, reg⟩, hload, hinstall⟩ := except_bind_eq_ok.1 h
    cases except_pure_eq_ok.1 hinstall
    obtain ⟨hl', hreg⟩ := loadItems_loaded hl hempty hload
    exact ⟨hl', hframe hreg⟩
  · obtain ⟨⟨ca, reg⟩, hload, hinstall⟩ := except_bind_eq_ok.1 h
    cases except_pure_eq_ok.1 hinstall
    obtain ⟨hl', hreg⟩ := loadLootPools_loaded hl hempty hload
    exact ⟨hl', hframe hreg⟩

/-- A catalog loaded from the files of a directory is loaded: coherent, with non-negative integer
weights and ascending tiers. The registries are loaded in order, each into the registry that
the catalog without definitions has empty and that no earlier load touched. -/
theorem ofFiles_loaded {depth : Nat} {dir : String} {files : Kind → Option String}
    (h : ofFiles depth dir files = .ok c) : c.Loaded := by
  unfold ofFiles at h
  simp only [kinds, List.foldlM_cons, List.foldlM_nil] at h
  obtain ⟨c₁, h₁, h⟩ := except_bind_eq_ok.1 h
  obtain ⟨c₂, h₂, h⟩ := except_bind_eq_ok.1 h
  obtain ⟨c₃, h₃, h⟩ := except_bind_eq_ok.1 h
  obtain ⟨c₄, h₄, h⟩ := except_bind_eq_ok.1 h
  cases except_pure_eq_ok.1 h
  obtain ⟨raws₁, -, h₁⟩ := except_bind_eq_ok.1 h₁
  obtain ⟨raws₂, -, h₂⟩ := except_bind_eq_ok.1 h₂
  obtain ⟨raws₃, -, h₃⟩ := except_bind_eq_ok.1 h₃
  obtain ⟨raws₄, -, h₄⟩ := except_bind_eq_ok.1 h₄
  obtain ⟨hl₁, hreg₁⟩ := loadKind_loaded empty_loaded rfl h₁
  obtain ⟨hl₂, hreg₂⟩ := loadKind_loaded hl₁ (by rw [hreg₁ _ (by decide)]; rfl) h₂
  obtain ⟨hl₃, hreg₃⟩ := loadKind_loaded hl₂
    (by rw [hreg₂ _ (by decide), hreg₁ _ (by decide)]; rfl) h₃
  obtain ⟨hl₄, -⟩ := loadKind_loaded hl₃
    (by rw [hreg₃ _ (by decide), hreg₂ _ (by decide), hreg₁ _ (by decide)]; rfl) h₄
  exact hl₄

end Catalog

end Loot
