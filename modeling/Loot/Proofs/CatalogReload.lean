import Loot.Proofs.RecordReadBack
import Loot.Engine
import Loot.Proofs.LootDrop

/-!
# Saving a catalog and loading it again

For every catalog that can be saved (`Catalog.Savable`), saving and loading again succeed, and the
loaded catalog is isomorphic to the saved one (`Engine.saveReload_isomorphic`): the same ids in the
same order, every field kept, every reference moved to the image of what it named (`Catalog.Iso`).
Each record written reads back and links against the registries loaded before it. Coherence alone
is not enough: some names block the reload (`names_block_reload`).
-/

namespace Loot

open Loot.Json Loot.Decimal Loot.Text

/-! ## Registries loaded into empty storage -/

namespace Registry

/-- The same ids in the same order, each naming the slot at its position: the registry that
loading a registry's records into empty storage builds. -/
def renumber (r : Registry) : Registry := ⟨r.entries.mapIdx fun i e => (e.1, i)⟩

variable {r : Registry} {id key : Int} {slot s : Nat}

/-- An id above every id of a list goes at its end. -/
theorem insertEntry_of_lt : ∀ {es : List (Int × Nat)}, (∀ e ∈ es, e.1 < id) →
    insertEntry id slot es = es ++ [(id, slot)]
  | [], _ => rfl
  | e :: es, h => by
    have he := h e List.mem_cons_self
    rw [insertEntry, if_neg (by omega), if_neg (by omega),
      insertEntry_of_lt fun x hx => h x (List.mem_cons_of_mem e hx), List.cons_append]

theorem keys_renumber (r : Registry) : r.renumber.entries.map (·.1) = r.entries.map (·.1) := by
  apply List.ext_getElem (by simp [renumber])
  intro i _ _
  simp [renumber]

theorem renumber_concat (es : List (Int × Nat)) (e : Int × Nat) :
    (⟨es ++ [e]⟩ : Registry).renumber =
      ⟨(⟨es⟩ : Registry).renumber.entries ++ [(e.1, es.length)]⟩ := by
  simp [renumber, List.mapIdx_concat]

theorem Sorted.renumber (h : r.Sorted) : r.renumber.Sorted := by
  unfold Sorted at h ⊢
  rw [← List.pairwise_map (R := (· < ·)), keys_renumber, List.pairwise_map]
  exact h

/-- Loading a registry's records into empty storage puts each definition in the slot at the
position of its old slot among the registry's slots. -/
theorem Sorted.find?_renumber (hs : r.Sorted) (hnd : r.slots.Nodup) (h : (key, s) ∈ r.entries) :
    r.renumber.find? key = some (r.slots.idxOf s) := by
  obtain ⟨i, hi, hei⟩ := List.mem_iff_getElem.1 h
  have hi' : i < r.slots.length := by simpa [slots] using hi
  have hslot : r.slots[i] = s := by simp [slots, hei]
  have hidx : r.slots.idxOf s = i := by
    rw [← hslot]
    exact hnd.idxOf_getElem i _
  rw [hidx]
  refine hs.renumber.find?_eq_some_iff.2 (List.mem_mapIdx.2 ⟨i, hi, ?_⟩)
  simp [hei]

/-- With its slots distinct, a registry loaded into empty storage moves each slot to its
position. -/
theorem renumber_eq_map (hnd : r.slots.Nodup) :
    r.renumber.entries = r.entries.map fun e => (e.1, r.slots.idxOf e.2) := by
  apply List.ext_getElem (by simp [renumber])
  intro i h₁ h₂
  have hi : i < r.slots.length := by simpa [renumber, slots] using h₁
  have hi' : i < r.entries.length := by simpa [renumber] using h₁
  have hidx : r.slots.idxOf r.entries[i].2 = i := by
    have := hnd.idxOf_getElem i hi
    simpa [slots] using this
  simp [renumber, hidx]

/-- The entries before an entry of a sorted registry have smaller ids. -/
theorem Sorted.lt_of_split (h : r.Sorted)
    {mid post : List (Int × Nat)} {e : Int × Nat} (hsplit : r.entries = mid ++ e :: post) :
    ∀ x ∈ mid, x.1 < e.1 := by
  unfold Sorted at h
  rw [hsplit] at h
  exact fun x hx => (List.pairwise_append.1 h).2.2 x hx e List.mem_cons_self

/-- Registering an id above every id loaded so far, in the next slot, appends it. -/
theorem register_renumber {k : Kind} {pre : List (Int × Nat)} {e : Int × Nat}
    (h : ∀ x ∈ pre, x.1 < e.1) :
    Catalog.register k (⟨pre⟩ : Registry).renumber e.1 pre.length =
      .ok (⟨pre ++ [e]⟩ : Registry).renumber := by
  have hkeys : ∀ x ∈ (⟨pre⟩ : Registry).renumber.entries, x.1 < e.1 := by
    intro x hx
    have hmem : x.1 ∈ pre.map (·.1) := by
      rw [← keys_renumber ⟨pre⟩]
      exact List.mem_map_of_mem hx
    obtain ⟨y, hy, hxy⟩ := List.mem_map.1 hmem
    exact hxy ▸ h y hy
  have hfree : (⟨pre⟩ : Registry).renumber.contains e.1 = false := by
    rw [Bool.eq_false_iff]
    intro hc
    obtain ⟨slot, hslot⟩ := contains_iff.1 hc
    exact absurd (hkeys _ hslot) (lt_irrefl _)
  rw [Catalog.register, if_neg (by simp [hfree]), insert, insertEntry_of_lt hkeys,
    renumber_concat]

end Registry

/-! ## Isomorphic catalogs -/

/-- A pool with each member's affix moved by `σ`. -/
def PoolDef.rename (σ : Kind → Nat → Nat) (d : PoolDef) : PoolDef :=
  { d with members := d.members.map fun m => (⟨σ .affix m.1.slot⟩, m.2) }

/-- An item with each pool and fixed affix moved by `σ`. -/
def ItemDef.rename (σ : Kind → Nat → Nat) (d : ItemDef) : ItemDef :=
  { d with pools := d.pools.map fun p => ⟨σ .affixPool p.slot⟩,
           fixed := d.fixed.map fun a => ⟨σ .affix a.slot⟩ }

/-- A loot pool with each member's item moved by `σ`. -/
def LootPoolDef.rename (σ : Kind → Nat → Nat) (d : LootPoolDef) : LootPoolDef :=
  { d with members := d.members.map fun m => (⟨σ .item m.1.slot⟩, m.2) }

namespace Catalog

/-- Two catalogs that hold the same definitions, the definition in slot `s` of `c` standing in
slot `σ k s` of `c'`: the registries list the same ids in the same order, `σ` tells registered
definitions apart, and each definition keeps its id and every field, its references moved by
`σ` to the definitions they name. -/
structure Iso (σ : Kind → Nat → Nat) (c c' : Catalog) : Prop where
  entries : ∀ k, (c'.registry k).entries = (c.registry k).entries.map fun e => (e.1, σ k e.2)
  injective : ∀ k s₁ s₂, c.Registered k s₁ → c.Registered k s₂ → σ k s₁ = σ k s₂ → s₁ = s₂
  affix : ∀ s, c.Registered .affix s → c'.affix ⟨σ .affix s⟩ = c.affix ⟨s⟩
  pool : ∀ s, c.Registered .affixPool s → c'.pool ⟨σ .affixPool s⟩ = (c.pool ⟨s⟩).rename σ
  item : ∀ s, c.Registered .item s → c'.item ⟨σ .item s⟩ = (c.item ⟨s⟩).rename σ
  lootPool : ∀ s, c.Registered .lootPool s →
    c'.lootPool ⟨σ .lootPool s⟩ = (c.lootPool ⟨s⟩).rename σ

/-- Where the definition in slot `s` goes when a registry's records are loaded into empty
storage: its position among the registry's slots, by ascending id. -/
def position (c : Catalog) (k : Kind) (s : Nat) : Nat := (c.registry k).slots.idxOf s

/-- The catalog that loading the saved records of `c` builds: each registry's definitions stored
in the order of their ids, references moved to where the definitions they name now are. -/
def reloaded (c : Catalog) : Catalog where
  affixes := (c.affixIds.slots.map fun s => c.affix ⟨s⟩).toArray
  pools := (c.poolIds.slots.map fun s => (c.pool ⟨s⟩).rename c.position).toArray
  items := (c.itemIds.slots.map fun s => (c.item ⟨s⟩).rename c.position).toArray
  lootPools := (c.lootPoolIds.slots.map fun s => (c.lootPool ⟨s⟩).rename c.position).toArray
  affixIds := c.affixIds.renumber
  poolIds := c.poolIds.renumber
  itemIds := c.itemIds.renumber
  lootPoolIds := c.lootPoolIds.renumber

variable {c : Catalog} {k : Kind}

@[simp]
theorem registry_affix (c : Catalog) : c.registry .affix = c.affixIds := rfl

@[simp]
theorem registry_affixPool (c : Catalog) : c.registry .affixPool = c.poolIds := rfl

@[simp]
theorem registry_item (c : Catalog) : c.registry .item = c.itemIds := rfl

@[simp]
theorem registry_lootPool (c : Catalog) : c.registry .lootPool = c.lootPoolIds := rfl

@[simp]
theorem registry_reloaded (k : Kind) : c.reloaded.registry k = (c.registry k).renumber := by
  cases k <;> rfl

theorem registered_iff_mem_slots {s : Nat} : c.Registered k s ↔ s ∈ (c.registry k).slots := by
  simp [Registered, Registry.slots]

/-- A coherent registry names each slot once: the definition in a slot has one id. -/
theorem Coherent.slots_nodup (hc : c.Coherent) (k : Kind) : (c.registry k).slots.Nodup := by
  have hnd : (c.registry k).entries.Nodup := (hc.sorted k).nodup
  refine hnd.map_on fun x hx y hy hxy => ?_
  have hkey : x.1 = y.1 := by
    have hx' := hc.idAt_eq k x hx
    rw [hxy, hc.idAt_eq k y hy] at hx'
    exact (Json.Value.int.inj hx').symm
  exact (hc.sorted k).eq_of_mem hx hy hkey

/-- The definition stored at the position of a listed slot, in an array of the listed slots'
definitions, is that slot's definition. -/
theorem getD_map_idxOf {α : Type} [Inhabited α] {l : List Nat} {f : Nat → α} {s : Nat}
    (hs : s ∈ l) : ((l.map f).toArray[l.idxOf s]?).getD default = f s := by
  have hlt : l.idxOf s < l.length := List.idxOf_lt_length_iff.2 hs
  simp [List.getElem?_map, List.getElem?_eq_getElem hlt, List.getElem_idxOf hlt]

/-- Loading the saved records of a coherent catalog into empty storage gives a catalog that
holds the same definitions, each at the position of its slot among its registry's slots. -/
theorem Coherent.iso_reloaded (hc : c.Coherent) : c.Iso c.position c.reloaded where
  entries k := by rw [registry_reloaded, Registry.renumber_eq_map (hc.slots_nodup k)]; rfl
  injective k s₁ s₂ h₁ h₂ heq := by
    rw [registered_iff_mem_slots] at h₁ h₂
    have hlt₁ := List.idxOf_lt_length_iff.2 h₁
    have hlt₂ := List.idxOf_lt_length_iff.2 h₂
    rw [← List.getElem_idxOf hlt₁, ← List.getElem_idxOf hlt₂]
    simp only [position] at heq
    simp only [heq]
  affix s hs := getD_map_idxOf (registered_iff_mem_slots.1 hs)
  pool s hs := getD_map_idxOf (registered_iff_mem_slots.1 hs)
  item s hs := getD_map_idxOf (registered_iff_mem_slots.1 hs)
  lootPool s hs := getD_map_idxOf (registered_iff_mem_slots.1 hs)

/-! ## Catalogs that can be saved -/

/-- The name of the definition in a slot. -/
def nameAt (c : Catalog) : Kind → Nat → Value
  | .affix, s => (c.affix ⟨s⟩).name
  | .affixPool, s => (c.pool ⟨s⟩).name
  | .item, s => (c.item ⟨s⟩).name
  | .lootPool, s => (c.lootPool ⟨s⟩).name

/-- The member weights of the pool or loot pool in a slot; none for affixes and items. -/
def weightsAt (c : Catalog) : Kind → Nat → List Value
  | .affixPool, s => (c.pool ⟨s⟩).members.map (·.2)
  | .lootPool, s => (c.lootPool ⟨s⟩).members.map (·.2)
  | _, _ => []

/-- A catalog that saving and loading again gives back. It is coherent, every member weight is a
non-negative integer, and every tier map ascends, so that each tier is stored under its own
number once. Every name is a string without lone surrogates, which UTF-8 can write and which
reads back as a string, and every integer has at most `maxIntDigits` digits, as every integer
read from a record has. -/
structure Savable (c : Catalog) : Prop where
  coherent : c.Coherent
  keys : ∀ k, ∀ e ∈ (c.registry k).entries, Readable e.1
  names : ∀ k, ∀ e ∈ (c.registry k).entries, ∃ t : String, c.nameAt k e.2 = .str (Chars.ofString t)
  weights : ∀ k, ∀ e ∈ (c.registry k).entries, ∀ w ∈ c.weightsAt k e.2,
    ∃ n, w = .int n ∧ 0 ≤ n ∧ Readable n
  tiers : ∀ e ∈ c.affixIds.entries, (c.affix ⟨e.2⟩).tiers.Ascending ∧
    ∀ t ∈ (c.affix ⟨e.2⟩).tiers.tiers, t.Readable

variable {e : Int × Nat}

/-- A reference of a registered definition names a definition registered under a readable key,
which is its id. -/
theorem Savable.ref_key (hs : c.Savable) (he : e ∈ (c.registry k).entries) {r : Kind × Nat}
    (hr : r ∈ c.refsAt k e.2) :
    ∃ key, (key, r.2) ∈ (c.registry r.1).entries ∧ c.idAt r.1 r.2 = .int key ∧ Readable key := by
  obtain ⟨key, hkey⟩ := hs.coherent.registered_ref he hr
  exact ⟨key, hkey, hs.coherent.idAt_of_registered hkey, hs.keys _ _ hkey⟩

/-- A member of a registered pool names a registered affix, whose id is its readable key, and
is weighed by a non-negative readable integer. -/
theorem Savable.pool_member (hs : c.Savable) (he : e ∈ c.poolIds.entries)
    {m : Ref .affix × Value} (hm : m ∈ (c.pool ⟨e.2⟩).members) :
    (∃ key, (key, m.1.slot) ∈ c.affixIds.entries ∧ (c.affix m.1).id = .int key ∧ Readable key) ∧
      ∃ n, m.2 = .int n ∧ 0 ≤ n ∧ Readable n :=
  ⟨hs.ref_key (k := .affixPool) he (r := (.affix, m.1.slot)) (List.mem_map_of_mem hm),
    hs.weights .affixPool e he m.2 (List.mem_map_of_mem hm)⟩

/-- A member of a registered loot pool names a registered item, whose id is its readable key,
and is weighed by a non-negative readable integer. -/
theorem Savable.lootPool_member (hs : c.Savable) (he : e ∈ c.lootPoolIds.entries)
    {m : Ref .item × Value} (hm : m ∈ (c.lootPool ⟨e.2⟩).members) :
    (∃ key, (key, m.1.slot) ∈ c.itemIds.entries ∧ (c.item m.1).id = .int key ∧ Readable key) ∧
      ∃ n, m.2 = .int n ∧ 0 ≤ n ∧ Readable n :=
  ⟨hs.ref_key (k := .lootPool) he (r := (.item, m.1.slot)) (List.mem_map_of_mem hm),
    hs.weights .lootPool e he m.2 (List.mem_map_of_mem hm)⟩

/-- A pool of a registered item is registered, and its id is its readable key. -/
theorem Savable.item_pool (hs : c.Savable) (he : e ∈ c.itemIds.entries) {p : Ref .affixPool}
    (hp : p ∈ (c.item ⟨e.2⟩).pools) :
    ∃ key, (key, p.slot) ∈ c.poolIds.entries ∧ (c.pool p).id = .int key ∧ Readable key :=
  hs.ref_key (k := .item) he (r := (.affixPool, p.slot))
    (List.mem_append_left _ (List.mem_map_of_mem hp))

/-- A fixed affix of a registered item is registered, and its id is its readable key. -/
theorem Savable.item_fixed (hs : c.Savable) (he : e ∈ c.itemIds.entries) {a : Ref .affix}
    (ha : a ∈ (c.item ⟨e.2⟩).fixed) :
    ∃ key, (key, a.slot) ∈ c.affixIds.entries ∧ (c.affix a).id = .int key ∧ Readable key :=
  hs.ref_key (k := .item) he (r := (.affix, a.slot))
    (List.mem_append_right _ (List.mem_map_of_mem ha))

/-! ## Writing the records -/

/-- The record of a registered affix can be written. -/
theorem Savable.affix_record (hs : c.Savable) (he : e ∈ c.affixIds.entries) :
    (c.recordAt .affix e.2).plain = true ∧ (c.recordAt .affix e.2).depth ≤ 5 := by
  obtain ⟨t, hname⟩ := hs.names .affix e he
  have hid : (c.affix ⟨e.2⟩).id = .int e.1 := hs.coherent.idAt_eq .affix e he
  obtain ⟨htiers, hdepth⟩ := TierMap.plain_toValue (hs.tiers e he).1 (hs.tiers e he).2
  simp only [nameAt] at hname
  simp only [recordAt, AffixDef.toValue, hid, hname, Value.plain, Value.depth, plainMembers,
    depthMembers]
  simp [htiers, Text.Chars.ofString_inj, Placement.name]
  exact ⟨hs.keys .affix e he, by omega⟩

/-- The record of a registered pool can be written. -/
theorem Savable.pool_record (hs : c.Savable) (he : e ∈ c.poolIds.entries) :
    (c.recordAt .affixPool e.2).plain = true ∧ (c.recordAt .affixPool e.2).depth ≤ 5 := by
  obtain ⟨t, hname⟩ := hs.names .affixPool e he
  have hid : (c.pool ⟨e.2⟩).id = .int e.1 := hs.coherent.idAt_eq .affixPool e he
  have hmember : ∀ m ∈ (c.pool ⟨e.2⟩).members,
      let v := Value.obj [(Chars.ofString "affix_id", (c.affix m.1).id),
        (Chars.ofString "weight", m.2)]
      v.plain = true ∧ v.depth ≤ 1 := by
    intro m hm
    obtain ⟨⟨key, -, hkey, hr⟩, n, hn, -, hnr⟩ := hs.pool_member he hm
    rw [hkey, hn]
    exact plain_member (by decide) hr hnr
  have hitems := plainItems_iff.2 fun v hv => by
    obtain ⟨m, hm, rfl⟩ := List.mem_map.1 hv
    exact (hmember m hm).1
  have hdepth := depthItems_le_iff.2 fun v hv => by
    obtain ⟨m, hm, rfl⟩ := List.mem_map.1 hv
    exact (hmember m hm).2
  simp only [nameAt] at hname
  simp only [recordAt, hid, hname, Value.plain, Value.depth, plainMembers, depthMembers]
  simp [hitems, Text.Chars.ofString_inj]
  exact ⟨hs.keys .affixPool e he, by omega⟩

/-- The record of a registered loot pool can be written. -/
theorem Savable.lootPool_record (hs : c.Savable) (he : e ∈ c.lootPoolIds.entries) :
    (c.recordAt .lootPool e.2).plain = true ∧ (c.recordAt .lootPool e.2).depth ≤ 5 := by
  obtain ⟨t, hname⟩ := hs.names .lootPool e he
  have hid : (c.lootPool ⟨e.2⟩).id = .int e.1 := hs.coherent.idAt_eq .lootPool e he
  have hmember : ∀ m ∈ (c.lootPool ⟨e.2⟩).members,
      let v := Value.obj [(Chars.ofString "item_id", (c.item m.1).id),
        (Chars.ofString "weight", m.2)]
      v.plain = true ∧ v.depth ≤ 1 := by
    intro m hm
    obtain ⟨⟨key, -, hkey, hr⟩, n, hn, -, hnr⟩ := hs.lootPool_member he hm
    rw [hkey, hn]
    exact plain_member (by decide) hr hnr
  have hitems := plainItems_iff.2 fun v hv => by
    obtain ⟨m, hm, rfl⟩ := List.mem_map.1 hv
    exact (hmember m hm).1
  have hdepth := depthItems_le_iff.2 fun v hv => by
    obtain ⟨m, hm, rfl⟩ := List.mem_map.1 hv
    exact (hmember m hm).2
  simp only [nameAt] at hname
  simp only [recordAt, hid, hname, Value.plain, Value.depth, plainMembers, depthMembers]
  simp [hitems, Text.Chars.ofString_inj]
  exact ⟨hs.keys .lootPool e he, by omega⟩

/-- The record of a registered item can be written. -/
theorem Savable.item_record (hs : c.Savable) (he : e ∈ c.itemIds.entries) :
    (c.recordAt .item e.2).plain = true ∧ (c.recordAt .item e.2).depth ≤ 5 := by
  obtain ⟨t, hname⟩ := hs.names .item e he
  have hid : (c.item ⟨e.2⟩).id = .int e.1 := hs.coherent.idAt_eq .item e he
  have hpools : plainItems ((c.item ⟨e.2⟩).pools.map fun p => (c.pool p).id) = true :=
      plainItems_iff.2 fun v hv => by
    obtain ⟨p, hp, rfl⟩ := List.mem_map.1 hv
    obtain ⟨key, -, hkey, hr⟩ := hs.item_pool he hp
    rw [hkey]
    exact plain_int.2 hr
  have hfixed : plainItems ((c.item ⟨e.2⟩).fixed.map fun a => (c.affix a).id) = true :=
      plainItems_iff.2 fun v hv => by
    obtain ⟨a, ha, rfl⟩ := List.mem_map.1 hv
    obtain ⟨key, -, hkey, hr⟩ := hs.item_fixed he ha
    rw [hkey]
    exact plain_int.2 hr
  have hdepth : ∀ {α : Type} (xs : List α) (f : α → Value), (∀ x ∈ xs, ∃ n, f x = .int n) →
      depthItems (xs.map f) ≤ 0 := fun xs f h => depthItems_le_iff.2 fun v hv => by
    obtain ⟨x, hx, rfl⟩ := List.mem_map.1 hv
    obtain ⟨n, hn⟩ := h x hx
    simp [hn, Value.depth]
  have hpd := hdepth (c.item ⟨e.2⟩).pools (fun p => (c.pool p).id) fun p hp => by
    obtain ⟨key, -, hkey, -⟩ := hs.item_pool he hp
    exact ⟨key, hkey⟩
  have hfd := hdepth (c.item ⟨e.2⟩).fixed (fun a => (c.affix a).id) fun a ha => by
    obtain ⟨key, -, hkey, -⟩ := hs.item_fixed he ha
    exact ⟨key, hkey⟩
  obtain ⟨hcl, hcld⟩ := Classification.plain_toValue (c.item ⟨e.2⟩).classification
  simp only [nameAt] at hname
  simp only [recordAt, hid, hname, Value.plain, Value.depth, plainMembers, depthMembers]
  simp [hpools, hfixed, hcl, Text.Chars.ofString_inj]
  exact ⟨hs.keys .item e he, by omega⟩

/-- The record of every registered definition can be written, nested five deep at most. -/
theorem Savable.record (hs : c.Savable) (he : e ∈ (c.registry k).entries) :
    (c.recordAt k e.2).plain = true ∧ (c.recordAt k e.2).depth ≤ 5 := by
  cases k with
  | affix => exact hs.affix_record he
  | affixPool => exact hs.pool_record he
  | item => exact hs.item_record he
  | lootPool => exact hs.lootPool_record he

/-- The records of a registry of a savable catalog can be written, nested six deep at most. -/
theorem Savable.dump (hs : c.Savable) (k : Kind) :
    (c.dump k).plain = true ∧ (c.dump k).depth ≤ 6 := by
  have hrecords : ∀ v ∈ (c.registry k).slots.map (c.recordAt k), v.plain = true ∧ v.depth ≤ 5 := by
    intro v hv
    obtain ⟨s, hs', rfl⟩ := List.mem_map.1 hv
    obtain ⟨e, he, rfl⟩ := List.mem_map.1 hs'
    exact hs.record he
  have hdepth := depthItems_le_iff.2 fun v hv => (hrecords v hv).2
  refine ⟨plainItems_iff.2 fun v hv => (hrecords v hv).1, ?_⟩
  simp only [Catalog.dump, Value.depth]
  omega

/-- A registry of a savable catalog is saved as its records over several lines. -/
theorem Savable.fileText (hs : c.Savable) (k : Kind) :
    c.fileText Engine.saveDepth k = .ok ((c.dump k).layout 0 ++ "\n") := by
  obtain ⟨hp, hd⟩ := hs.dump k
  have hpretty := prettyAt_eq_layout (c.dump k) hp (show _ ≤ Engine.saveDepth by
    simp only [Engine.saveDepth]; omega) 0
  simp only [Catalog.fileText, Value.pretty, hpretty]

end Catalog

/-- Text without carriage returns has no line ends to turn. -/
theorem normalizeLineEnds_of_not_mem {s : String} (h : '\r' ∉ s.toList) :
    normalizeLineEnds s = s := by
  have hgo : ∀ cs : List Char, '\r' ∉ cs → normalizeLineEnds.go cs = cs := by
    intro cs
    induction cs with
    | nil => intro _; rfl
    | cons c cs ih =>
      intro hc
      have hne : c ≠ '\r' := fun h => hc (h ▸ List.mem_cons_self)
      have hcs : '\r' ∉ cs := fun h => hc (List.mem_cons_of_mem c h)
      rw [normalizeLineEnds.go.eq_3 _ _ (fun _ h _ => hne h) hne, ih hcs]
  simp [normalizeLineEnds, hgo _ h]

namespace Catalog

variable {c : Catalog}

/-- The file of a registry of a savable catalog reads back as the registry's records. -/
theorem Savable.readRecords (hs : c.Savable) (k : Kind) (path : String) :
    readRecords Engine.reloadDepth path (some ((c.dump k).layout 0 ++ "\n")) =
      .ok ((c.registry k).slots.map (c.recordAt k)) := by
  obtain ⟨hp, hd⟩ := hs.dump k
  have hcr : '\r' ∉ ((c.dump k).layout 0 ++ "\n").toList := by
    simp only [String.toList_append, List.mem_append, not_or]
    exact ⟨cr_not_mem_layout _ 0, by decide⟩
  simp only [Catalog.dump] at hp hd hcr ⊢
  have hread := read_layout hp (show _ ≤ Engine.reloadDepth by
    simp only [Engine.reloadDepth]; omega)
  simp only [Loot.readRecords, normalizeLineEnds_of_not_mem hcr, hread]

end Catalog

/-! ## Loading the saved records -/

/-- The integer of an integer value, and zero for any other: what reading a record takes from
a field that holds an integer. -/
def Json.Value.intD : Value → Int
  | .int n => n
  | _ => 0

@[simp]
theorem Json.Value.intD_int (n : Int) : (Value.int n).intD = n := rfl

theorem Json.Value.int_intD {v : Value} {n : Int} (h : v = .int n) : Value.int v.intD = v := by
  subst h
  rfl

/-- The text of a string value, and the empty text for any other: what reading a record takes
from a field that holds a string. -/
def Json.Value.strD : Value → Chars
  | .str s => s
  | _ => ⟨[]⟩

@[simp]
theorem Json.Value.strD_str (s : Chars) : (Value.str s).strD = s := rfl

namespace Catalog

variable {c : Catalog} {e : Int × Nat} {room : Nat}

/-- What reading the saved record of a pool gives, before its members are linked. -/
def poolRecord (c : Catalog) (e : Int × Nat) : WeightedRecord :=
  ⟨e.1, (c.pool ⟨e.2⟩).name.strD,
    (c.pool ⟨e.2⟩).members.map fun m => ((c.affix m.1).id.intD, m.2.intD)⟩

/-- What reading the saved record of a loot pool gives, before its members are linked. -/
def lootPoolRecord (c : Catalog) (e : Int × Nat) : WeightedRecord :=
  ⟨e.1, (c.lootPool ⟨e.2⟩).name.strD,
    (c.lootPool ⟨e.2⟩).members.map fun m => ((c.item m.1).id.intD, m.2.intD)⟩

/-- What reading the saved record of an item gives, before its references are linked. -/
def itemRecord (c : Catalog) (e : Int × Nat) : ItemRecord :=
  ⟨e.1, (c.item ⟨e.2⟩).classification, (c.item ⟨e.2⟩).name.strD,
    (c.item ⟨e.2⟩).pools.map fun p => (c.pool p).id.intD,
    (c.item ⟨e.2⟩).fixed.map fun a => (c.affix a).id.intD⟩

@[simp]
theorem poolRecord_id : (c.poolRecord e).id = e.1 := rfl

@[simp]
theorem lootPoolRecord_id : (c.lootPoolRecord e).id = e.1 := rfl

@[simp]
theorem itemRecord_id : (c.itemRecord e).id = e.1 := rfl

/-- The saved record of a registered affix reads back as the affix, under its key. -/
theorem Savable.read_affix (hs : c.Savable) (he : e ∈ c.affixIds.entries) :
    AffixDef.ofValue room (c.recordAt .affix e.2) = .ok (e.1, c.affix ⟨e.2⟩) := by
  obtain ⟨t, hname⟩ := hs.names .affix e he
  exact AffixDef.ofValue_toValue (hs.coherent.idAt_eq .affix e he) hname (hs.tiers e he).1
    fun u hu => ((hs.tiers e he).2 u hu).1

/-- The saved record of a registered pool reads as its key, its name, and its members' keys and
weights. -/
theorem Savable.read_pool (hs : c.Savable) (he : e ∈ c.poolIds.entries) :
    WeightedRecord.ofValue room .affixPool "affix_id" (c.recordAt .affixPool e.2) =
      .ok (c.poolRecord e) := by
  obtain ⟨t, hname⟩ := hs.names .affixPool e he
  have hid : (c.pool ⟨e.2⟩).id = .int e.1 := hs.coherent.idAt_eq .affixPool e he
  simp only [nameAt] at hname
  refine WeightedRecord.ofValue_eq_ok (by decide) (by simp [hid])
    (by simp [hname]) ?_ ?_
  · -- each member is written with its affix's id and its weight, both integers
    simp only [Value.lookup_ofString_cons, List.map_map]
    simp only [if_neg (show "id" ≠ "members" by decide), if_pos]
    congr 2
    refine List.map_congr_left fun m hm => ?_
    obtain ⟨⟨key, -, hkey, -⟩, n, hn, -⟩ := hs.pool_member he hm
    simp [Value.record, hkey, hn, Value.intD]
  intro p hp
  obtain ⟨m, hm, rfl⟩ := List.mem_map.1 hp
  obtain ⟨-, n, hn, hn0, -⟩ := hs.pool_member he hm
  simpa [hn, Value.intD] using hn0

/-- The saved record of a registered loot pool reads as its key, its name, and its members' keys
and weights. -/
theorem Savable.read_lootPool (hs : c.Savable) (he : e ∈ c.lootPoolIds.entries) :
    WeightedRecord.ofValue room .lootPool "item_id" (c.recordAt .lootPool e.2) =
      .ok (c.lootPoolRecord e) := by
  obtain ⟨t, hname⟩ := hs.names .lootPool e he
  have hid : (c.lootPool ⟨e.2⟩).id = .int e.1 := hs.coherent.idAt_eq .lootPool e he
  simp only [nameAt] at hname
  refine WeightedRecord.ofValue_eq_ok (by decide) (by simp [hid])
    (by simp [hname]) ?_ ?_
  · -- each member is written with its item's id and its weight, both integers
    simp only [Value.lookup_ofString_cons, List.map_map]
    simp only [if_neg (show "id" ≠ "members" by decide),
      if_neg (show "name" ≠ "members" by decide), if_pos]
    congr 2
    refine List.map_congr_left fun m hm => ?_
    obtain ⟨⟨key, -, hkey, -⟩, n, hn, -⟩ := hs.lootPool_member he hm
    simp [Value.record, hkey, hn, Value.intD]
  intro p hp
  obtain ⟨m, hm, rfl⟩ := List.mem_map.1 hp
  obtain ⟨-, n, hn, hn0, -⟩ := hs.lootPool_member he hm
  simpa [hn, Value.intD] using hn0

/-- The saved record of a registered item reads as its key, classification and name and the keys
of its pools and fixed affixes. -/
theorem Savable.read_item (hs : c.Savable) (he : e ∈ c.itemIds.entries) :
    ItemRecord.ofValue room (c.recordAt .item e.2) = .ok (c.itemRecord e) := by
  obtain ⟨t, hname⟩ := hs.names .item e he
  have hid : (c.item ⟨e.2⟩).id = .int e.1 := hs.coherent.idAt_eq .item e he
  simp only [nameAt] at hname
  refine ItemRecord.ofValue_eq_ok (by simp [hid]) (by simp) (by simp [hname]) ?_ ?_
  · -- the pools are written as their ids, which are integers
    simp only [Value.lookup_ofString_cons, List.map_map]
    simp only [if_neg (show "id" ≠ "affix_pools" by decide),
      if_neg (show "classification" ≠ "affix_pools" by decide), if_pos]
    congr 2
    refine List.map_congr_left fun p hp => ?_
    obtain ⟨key, -, hkey, -⟩ := hs.item_pool he hp
    exact (Value.int_intD hkey).symm
  · -- the fixed affixes are written as their ids, which are integers
    simp only [Value.lookup_ofString_cons, List.map_map]
    simp only [if_neg (show "id" ≠ "fixed_affixes" by decide),
      if_neg (show "classification" ≠ "fixed_affixes" by decide),
      if_neg (show "affix_pools" ≠ "fixed_affixes" by decide), if_pos]
    congr 2
    refine List.map_congr_left fun a ha => ?_
    obtain ⟨key, -, hkey, -⟩ := hs.item_fixed he ha
    exact (Value.int_intD hkey).symm

/-- A registered key finds, in the reloaded registry, the position of its slot. -/
theorem Coherent.find?_renumber (hc : c.Coherent) {k : Kind} {key : Int} {s : Nat}
    (h : (key, s) ∈ (c.registry k).entries) :
    (c.registry k).renumber.find? key = some (c.position k s) :=
  (hc.sorted k).find?_renumber (hc.slots_nodup k) h

/-- The saved id of a registered definition finds, in the reloaded registry, the position of the
definition's slot. -/
theorem Coherent.find?_intD (hc : c.Coherent) {k : Kind} {key : Int} {s : Nat} {v : Value}
    (h : (key, s) ∈ (c.registry k).entries) (hv : v = .int key) :
    (c.registry k).renumber.find? v.intD = some (c.position k s) := by
  subst hv
  exact hc.find?_renumber h

/-- Linked against the reloaded affix registry, a pool's record gives the pool with each affix
at its new position. -/
theorem Savable.link_pool (hs : c.Savable) (he : e ∈ c.poolIds.entries) :
    (c.poolRecord e).linkPool c.affixIds.renumber = .ok ((c.pool ⟨e.2⟩).rename c.position) := by
  obtain ⟨t, hname⟩ := hs.names .affixPool e he
  have hid : (c.pool ⟨e.2⟩).id = .int e.1 := hs.coherent.idAt_eq .affixPool e he
  simp only [nameAt] at hname
  have hfind : ∀ m ∈ (c.pool ⟨e.2⟩).members,
      c.affixIds.renumber.find? (c.affix m.1).id.intD = some (c.position .affix m.1.slot) := by
    intro m hm
    obtain ⟨⟨key, hkey, hid', -⟩, -⟩ := hs.pool_member he hm
    exact hs.coherent.find?_intD (k := .affix) hkey hid'
  rw [@WeightedRecord.linkPool_of_find? _ _ (fun key => (c.affixIds.renumber.find? key).getD 0)
    fun m hm => by
      obtain ⟨m', hm', rfl⟩ := List.mem_map.1 hm
      simp [hfind m' hm']]
  simp only [poolRecord, PoolDef.rename, hid, hname, Value.strD_str, List.map_map]
  congr 2
  refine List.map_congr_left fun m hm => ?_
  obtain ⟨-, n, hn, -⟩ := hs.pool_member he hm
  simp [hn, hfind m hm]

/-- Linked against the reloaded item registry, a loot pool's record gives the loot pool with each
item at its new position. -/
theorem Savable.link_lootPool (hs : c.Savable) (he : e ∈ c.lootPoolIds.entries) :
    (c.lootPoolRecord e).linkLootPool c.itemIds.renumber =
      .ok ((c.lootPool ⟨e.2⟩).rename c.position) := by
  obtain ⟨t, hname⟩ := hs.names .lootPool e he
  have hid : (c.lootPool ⟨e.2⟩).id = .int e.1 := hs.coherent.idAt_eq .lootPool e he
  simp only [nameAt] at hname
  have hfind : ∀ m ∈ (c.lootPool ⟨e.2⟩).members,
      c.itemIds.renumber.find? (c.item m.1).id.intD = some (c.position .item m.1.slot) := by
    intro m hm
    obtain ⟨⟨key, hkey, hid', -⟩, -⟩ := hs.lootPool_member he hm
    exact hs.coherent.find?_intD (k := .item) hkey hid'
  rw [@WeightedRecord.linkLootPool_of_find? _ _ (fun key => (c.itemIds.renumber.find? key).getD 0)
    fun m hm => by
      obtain ⟨m', hm', rfl⟩ := List.mem_map.1 hm
      simp [hfind m' hm']]
  simp only [lootPoolRecord, LootPoolDef.rename, hid, hname, Value.strD_str, List.map_map]
  congr 2
  refine List.map_congr_left fun m hm => ?_
  obtain ⟨-, n, hn, -⟩ := hs.lootPool_member he hm
  simp [hn, hfind m hm]

/-- Linked against the reloaded affix and pool registries, an item's record gives the item with
each pool and fixed affix at its new position. -/
theorem Savable.link_item (hs : c.Savable) (he : e ∈ c.itemIds.entries) :
    (c.itemRecord e).link c.affixIds.renumber c.poolIds.renumber =
      .ok ((c.item ⟨e.2⟩).rename c.position) := by
  obtain ⟨t, hname⟩ := hs.names .item e he
  have hid : (c.item ⟨e.2⟩).id = .int e.1 := hs.coherent.idAt_eq .item e he
  simp only [nameAt] at hname
  have hpools : ∀ p ∈ (c.item ⟨e.2⟩).pools,
      c.poolIds.renumber.find? (c.pool p).id.intD = some (c.position .affixPool p.slot) := by
    intro p hp
    obtain ⟨key, hkey, hid', -⟩ := hs.item_pool he hp
    exact hs.coherent.find?_intD (k := .affixPool) hkey hid'
  have hfixed : ∀ a ∈ (c.item ⟨e.2⟩).fixed,
      c.affixIds.renumber.find? (c.affix a).id.intD = some (c.position .affix a.slot) := by
    intro a ha
    obtain ⟨key, hkey, hid', -⟩ := hs.item_fixed he ha
    exact hs.coherent.find?_intD (k := .affix) hkey hid'
  rw [@ItemRecord.link_of_find? _ _ _ (fun a => (c.affixIds.renumber.find? a).getD 0)
    (fun p => (c.poolIds.renumber.find? p).getD 0)
    (fun p hp => by
      obtain ⟨p', hp', rfl⟩ := List.mem_map.1 hp
      simp [hpools p' hp'])
    fun a ha => by
      obtain ⟨a', ha', rfl⟩ := List.mem_map.1 ha
      simp [hfixed a' ha']]
  simp only [itemRecord, ItemDef.rename, hid, hname, Value.strD_str, List.map_map]
  congr 2
  · exact List.map_congr_left fun p hp => by simp [hpools p hp]
  · exact List.map_congr_left fun a ha => by simp [hfixed a ha]

/-! ## Loading one registry -/

/-- Loading the records of a sorted registry's entries, one after the other, when each record
is stored after those before it and registered under its entry's id: the storage holds the
records of all entries, and the registry lists their ids, each naming its position. -/
theorem foldlM_load_eq_ok {α : Type}
    {f : Catalog × Registry → α → Except Fault (Catalog × Registry)} (rec : Int × Nat → α)
    (stored : List (Int × Nat) → Catalog) {r : Registry} {c₀ : Catalog} (hr : r.Sorted)
    (h₀ : stored [] = c₀)
    (hstep : ∀ mid e, e ∈ r.entries → (∀ x ∈ mid, x.1 < e.1) →
      f (stored mid, (⟨mid⟩ : Registry).renumber) (rec e) =
        .ok (stored (mid ++ [e]), (⟨mid ++ [e]⟩ : Registry).renumber)) :
    (r.entries.map rec).foldlM f (c₀, .empty) = .ok (stored r.entries, r.renumber) := by
  rw [List.foldlM_map, ← h₀]
  exact foldlM_eq_ok_of_split (fun pre => (stored pre, (⟨pre⟩ : Registry).renumber)) r.entries
    fun mid e post hsplit => hstep mid e (by simp [hsplit]) (hr.lt_of_split hsplit)

/-- Loading the saved affix records into storage without affixes stores the affixes by ascending
id and registers each key at its position. -/
theorem Savable.loadAffixes (hs : c.Savable) {c₀ : Catalog} (h₀ : c₀.affixes = #[]) :
    c₀.loadAffixes room (c.affixIds.slots.map (c.recordAt .affix)) =
      .ok ({ c₀ with affixes := (c.affixIds.slots.map fun s => c.affix ⟨s⟩).toArray },
        c.affixIds.renumber) := by
  unfold Catalog.loadAffixes
  rw [Registry.slots, List.map_map, List.map_map]
  refine foldlM_load_eq_ok (fun e => c.recordAt .affix e.2)
    (fun pre => { c₀ with affixes := (pre.map fun e => c.affix ⟨e.2⟩).toArray })
    (show c.affixIds.Sorted from hs.coherent.sorted .affix)
    (by rw [List.map_nil, show ([] : List AffixDef).toArray = #[] from rfl, ← h₀])
    fun mid e he hlt => ?_
  simp only [hs.read_affix he, except_ok_bind, storeAffix, List.size_toArray, List.length_map,
    Registry.register_renumber hlt, List.push_toArray, List.map_append, List.map_cons,
    List.map_nil]
  rfl

/-- Loading the saved pool records into storage without pools stores the pools by ascending id,
linked to the reloaded affixes, and registers each key at its position. -/
theorem Savable.loadPools (hs : c.Savable) {c₀ : Catalog} (h₀ : c₀.pools = #[]) :
    c₀.loadPools room c.affixIds.renumber (c.poolIds.slots.map (c.recordAt .affixPool)) =
      .ok ({ c₀ with
          pools := (c.poolIds.slots.map fun s => (c.pool ⟨s⟩).rename c.position).toArray },
        c.poolIds.renumber) := by
  have hrecords : (c.poolIds.slots.map (c.recordAt .affixPool)).mapM
      (WeightedRecord.ofValue (room - 2) .affixPool "affix_id") =
        .ok (c.poolIds.entries.map c.poolRecord) := by
    rw [Registry.slots, List.map_map]
    exact mapM_map_eq_ok fun e he => hs.read_pool he
  unfold Catalog.loadPools
  rw [hrecords, except_ok_bind, Registry.slots, List.map_map]
  refine foldlM_load_eq_ok c.poolRecord
    (fun pre => { c₀ with pools := (pre.map fun e => (c.pool ⟨e.2⟩).rename c.position).toArray })
    (show c.poolIds.Sorted from hs.coherent.sorted .affixPool)
    (by rw [List.map_nil, show ([] : List PoolDef).toArray = #[] from rfl, ← h₀])
    fun mid e he hlt => ?_
  simp only [hs.link_pool he, except_ok_bind, storePool, List.size_toArray, List.length_map,
    poolRecord_id, Registry.register_renumber hlt, List.push_toArray, List.map_append,
    List.map_cons, List.map_nil]
  rfl

/-- Loading the saved item records into storage without items stores the items by ascending id,
linked to the reloaded affixes and pools, and registers each key at its position. -/
theorem Savable.loadItems (hs : c.Savable) {c₀ : Catalog} (h₀ : c₀.items = #[]) :
    c₀.loadItems room c.affixIds.renumber c.poolIds.renumber
        (c.itemIds.slots.map (c.recordAt .item)) =
      .ok ({ c₀ with
          items := (c.itemIds.slots.map fun s => (c.item ⟨s⟩).rename c.position).toArray },
        c.itemIds.renumber) := by
  have hrecords : (c.itemIds.slots.map (c.recordAt .item)).mapM (ItemRecord.ofValue (room - 2)) =
      .ok (c.itemIds.entries.map c.itemRecord) := by
    rw [Registry.slots, List.map_map]
    exact mapM_map_eq_ok fun e he => hs.read_item he
  unfold Catalog.loadItems
  rw [hrecords, except_ok_bind, Registry.slots, List.map_map]
  refine foldlM_load_eq_ok c.itemRecord
    (fun pre => { c₀ with items := (pre.map fun e => (c.item ⟨e.2⟩).rename c.position).toArray })
    (show c.itemIds.Sorted from hs.coherent.sorted .item)
    (by rw [List.map_nil, show ([] : List ItemDef).toArray = #[] from rfl, ← h₀])
    fun mid e he hlt => ?_
  simp only [hs.link_item he, except_ok_bind, storeItem, List.size_toArray, List.length_map,
    itemRecord_id, Registry.register_renumber hlt, List.push_toArray, List.map_append,
    List.map_cons, List.map_nil]
  rfl

/-- Loading the saved loot pool records into storage without loot pools stores them by ascending
id, linked to the reloaded items, and registers each key at its position. -/
theorem Savable.loadLootPools (hs : c.Savable) {c₀ : Catalog} (h₀ : c₀.lootPools = #[]) :
    c₀.loadLootPools room c.itemIds.renumber (c.lootPoolIds.slots.map (c.recordAt .lootPool)) =
      .ok ({ c₀ with lootPools :=
          (c.lootPoolIds.slots.map fun s => (c.lootPool ⟨s⟩).rename c.position).toArray },
        c.lootPoolIds.renumber) := by
  have hrecords : (c.lootPoolIds.slots.map (c.recordAt .lootPool)).mapM
      (WeightedRecord.ofValue (room - 2) .lootPool "item_id") =
        .ok (c.lootPoolIds.entries.map c.lootPoolRecord) := by
    rw [Registry.slots, List.map_map]
    exact mapM_map_eq_ok fun e he => hs.read_lootPool he
  unfold Catalog.loadLootPools
  rw [hrecords, except_ok_bind, Registry.slots, List.map_map]
  refine foldlM_load_eq_ok c.lootPoolRecord
    (fun pre =>
      { c₀ with lootPools := (pre.map fun e => (c.lootPool ⟨e.2⟩).rename c.position).toArray })
    (show c.lootPoolIds.Sorted from hs.coherent.sorted .lootPool)
    (by rw [List.map_nil, show ([] : List LootPoolDef).toArray = #[] from rfl, ← h₀])
    fun mid e he hlt => ?_
  simp only [hs.link_lootPool he, except_ok_bind, storeLootPool, List.size_toArray,
    List.length_map, lootPoolRecord_id, Registry.register_renumber hlt, List.push_toArray,
    List.map_append, List.map_cons, List.map_nil]
  rfl

/-! ## Saving and loading again -/

/-- The text a registry of a savable catalog is saved as. -/
def savedText (c : Catalog) (k : Kind) : String := (c.dump k).layout 0 ++ "\n"

/-- Loading the saved files of a savable catalog builds its reloaded form. -/
theorem Savable.ofFiles (hs : c.Savable) (dir : String) :
    ofFiles Engine.reloadDepth dir (fun k => some (c.savedText k)) = .ok c.reloaded := by
  simp only [Catalog.ofFiles, kinds, List.foldlM_cons, List.foldlM_nil, savedText,
    hs.readRecords, except_ok_bind, loadKind, registry_affix, registry_affixPool, registry_item,
    registry_lootPool]
  -- each registry is loaded into storage that holds no definition of its kind yet
  rw [hs.loadAffixes (show Catalog.empty.affixes = #[] from rfl)]
  simp only [except_ok_bind, pure_bind, withRegistry]
  rw [hs.loadPools rfl]
  simp only [except_ok_bind, pure_bind]
  rw [hs.loadItems rfl]
  simp only [except_ok_bind, pure_bind]
  rw [hs.loadLootPools rfl]
  rfl

end Catalog

namespace Engine

/-- Saving a savable catalog and loading it again succeeds: the files hold the saved texts, and
the catalog loaded from them replaces the old one. -/
theorem saveReload_eq {e : Engine} (hs : e.catalog.Savable) :
    e.saveReload = (.ok (Catalog.kinds.map fun k => (k, e.catalog.savedText k)),
      { e with catalog := e.catalog.reloaded }) := by
  have htexts : (Catalog.kinds.mapM fun k => do pure (k, ← e.catalog.fileText saveDepth k)) =
      .ok (Catalog.kinds.map fun k => (k, e.catalog.savedText k)) :=
    mapM_eq_ok_map fun k _ => by simp [hs.fileText k, Catalog.savedText]
  have hfiles : (fun k => ((Catalog.kinds.map fun k => (k, e.catalog.savedText k)).find?
      (·.1 == k)).map (·.2)) = fun k => some (e.catalog.savedText k) := by
    funext k
    cases k <;> rfl
  simp only [saveReload, htexts, except_ok_bind, hfiles, hs.ofFiles]
  rfl

/-- Saving a savable catalog and loading it again succeeds, and the loaded catalog holds the
same definitions: the registries list the same ids in order, and each definition keeps its id,
name, placement, tiers, classification, member weights and order, and references, which name
the images of the definitions they named. -/
theorem saveReload_isomorphic {e : Engine} (hs : e.catalog.Savable) :
    ∃ texts c' σ, e.saveReload = (.ok texts, { e with catalog := c' }) ∧
      e.catalog.Iso σ c' :=
  ⟨_, _, _, saveReload_eq hs, hs.coherent.iso_reloaded⟩

end Engine

/-- The sample catalog of one affix, one pool, one item and one loot pool can be saved. -/
theorem sampleLootCatalog_savable : sampleLootCatalog.Savable where
  coherent := sampleLootCatalog_coherent
  keys k e he := by
    cases k <;> simp [sampleLootCatalog] at he <;> subst he <;> decide
  names k e he := by
    cases k <;> simp [sampleLootCatalog] at he <;> subst he <;> exact ⟨"", rfl⟩
  weights k e he w hw := by
    cases k <;> simp [sampleLootCatalog] at he <;> subst he <;>
      simp [Catalog.weightsAt, Catalog.pool, Catalog.lootPool, sampleLootCatalog, sampleLootPool,
        sampleLoot] at hw
    · subst hw
      exact ⟨1, rfl, by decide, by decide⟩
    · rcases hw with rfl | rfl
      · exact ⟨0, rfl, le_refl 0, by decide⟩
      · exact ⟨2, rfl, by decide, by decide⟩
  tiers e he := by
    simp [sampleLootCatalog] at he
    subst he
    refine ⟨List.Pairwise.nil, fun t ht => ?_⟩
    cases ht

theorem sample_catalog_reloads :
    sampleLootCatalog.Savable ∧ ∃ texts c' σ,
      (⟨sampleLootCatalog, default⟩ : Engine).saveReload =
        (.ok texts, { (⟨sampleLootCatalog, default⟩ : Engine) with catalog := c' }) ∧
      sampleLootCatalog.Iso σ c' :=
  ⟨sampleLootCatalog_savable, Engine.saveReload_isomorphic sampleLootCatalog_savable⟩

/-! ## Names that do not survive -/

/-- A catalog of one affix, registered under its id in the first slot, is coherent. -/
theorem single_affix_coherent {d : AffixDef} {n : Int} (h : d.id = .int n) :
    ({ affixes := #[d], affixIds := ⟨[(n, 0)]⟩ } : Catalog).Coherent where
  sorted k := by cases k <;> simp [Catalog.registry, Registry.Sorted, Registry.empty]
  idAt_eq k e he := by
    cases k <;> simp [Catalog.registry, Registry.empty] at he
    subst he
    simpa [Catalog.idAt, Catalog.affix] using h
  refs k e he r hr := by
    cases k <;> simp [Catalog.registry, Registry.empty] at he
    subst he
    simp [Catalog.refsAt] at hr

/-- An affix whose name is a lone surrogate. -/
def surrogateNamedAffix : AffixDef :=
  { id := .int 1, placement := .before, name := .str ⟨[.surrogate 0]⟩, tiers := ⟨[]⟩ }

/-- An affix whose name has been set to the integer five. -/
def numberNamedAffix : AffixDef :=
  { id := .int 1, placement := .before, name := .int 5, tiers := ⟨[]⟩ }

/-- Coherence alone does not let a catalog be saved and loaded back. A name holding a lone
surrogate cannot be written as UTF-8, so saving fails and the catalog stays as it was; a name
that is not a string is read back as its text, so the affix named five comes back named "5". -/
theorem names_block_reload :
    ({ affixes := #[surrogateNamedAffix], affixIds := ⟨[(1, 0)]⟩ } : Catalog).Coherent ∧
    (⟨{ affixes := #[surrogateNamedAffix], affixIds := ⟨[(1, 0)]⟩ }, default⟩ : Engine).saveReload =
      (.error (.unencodable ⟨1, 2, 0xD800⟩),
        ⟨{ affixes := #[surrogateNamedAffix], affixIds := ⟨[(1, 0)]⟩ }, default⟩) ∧
    ({ affixes := #[numberNamedAffix], affixIds := ⟨[(1, 0)]⟩ } : Catalog).Coherent ∧
    ((⟨{ affixes := #[numberNamedAffix], affixIds := ⟨[(1, 0)]⟩ }, default⟩ : Engine).saveReload.2
      |>.catalog.affix ⟨0⟩).name = .str (Text.Chars.ofString "5") :=
  ⟨single_affix_coherent rfl, by cbv, single_affix_coherent rfl, by cbv⟩

end Loot
