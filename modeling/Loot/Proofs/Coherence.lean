import Loot.Catalog.Edit
import Loot.Proofs.Registry

/-!
# Coherent catalogs

A catalog is coherent when each registry ascends, each registered definition has its key for its
id, and each reference names a definition registered under its current id. Registering a freshly
stored definition whose references are registered keeps coherence, and so does taking out a key
that nothing refers to. A coherent catalog lists its definitions by ascending id and never has its
next free id registered.
-/

namespace Loot

open Loot.Json

namespace Catalog

/-- The references a definition of kind `k` in a slot holds, each as the kind and slot of the
definition referred to: a pool's affixes, an item's pools and then its fixed affixes, a loot
pool's items. -/
def refsAt (c : Catalog) : Kind → Nat → List (Kind × Nat)
  | .affix, _ => []
  | .affixPool, s => (c.pool ⟨s⟩).members.map fun m => (.affix, m.1.slot)
  | .item, s => (c.item ⟨s⟩).pools.map (fun p => (.affixPool, p.slot)) ++
      (c.item ⟨s⟩).fixed.map fun a => (.affix, a.slot)
  | .lootPool, s => (c.lootPool ⟨s⟩).members.map fun m => (.item, m.1.slot)

/-- The definition of kind `k` in slot `s` is registered, under some key. -/
def Registered (c : Catalog) (k : Kind) (s : Nat) : Prop :=
  ∃ key, (key, s) ∈ (c.registry k).entries

/-- Registries and definitions agree: ids ascend, registered definitions have their keys for
ids, and every reference of a registered definition is looked up, by the current id of the
definition it names, to that very definition. -/
structure Coherent (c : Catalog) : Prop where
  sorted : ∀ k, (c.registry k).Sorted
  idAt_eq : ∀ k, ∀ e ∈ (c.registry k).entries, c.idAt k e.2 = .int e.1
  refs : ∀ k, ∀ e ∈ (c.registry k).entries, ∀ r ∈ c.refsAt k e.2,
    c.require r.1 (c.idAt r.1 r.2) = .ok r.2

variable {c c₁ : Catalog} {k : Kind} {s : Nat}

/-! ## Replacing a registry -/

@[simp]
theorem registry_withRegistry_self (r : Registry) : (c.withRegistry k r).registry k = r := by
  cases k <;> rfl

theorem registry_withRegistry_of_ne {k' : Kind} (r : Registry) (h : k' ≠ k) :
    (c.withRegistry k r).registry k' = c.registry k' := by
  cases k <;> cases k' <;> first | rfl | exact absurd rfl h

@[simp]
theorem idAt_withRegistry (r : Registry) (k' : Kind) (s : Nat) :
    (c.withRegistry k r).idAt k' s = c.idAt k' s := by
  cases k <;> cases k' <;> rfl

@[simp]
theorem refsAt_withRegistry (r : Registry) (k' : Kind) (s : Nat) :
    (c.withRegistry k r).refsAt k' s = c.refsAt k' s := by
  cases k <;> cases k' <;> rfl

/-! ## References that resolve -/

/-- With ascending ids and registered definitions carrying their keys, looking up the current id
of a definition finds it exactly when it is registered. -/
theorem require_idAt_eq_ok_iff (hs : (c.registry k).Sorted)
    (hid : ∀ e ∈ (c.registry k).entries, c.idAt k e.2 = .int e.1) :
    c.require k (c.idAt k s) = .ok s ↔ c.Registered k s := by
  constructor
  · intro h
    obtain ⟨key, hmem, -⟩ := mem_of_require_eq_ok h
    exact ⟨key, hmem⟩
  · rintro ⟨key, hmem⟩
    rw [hid _ hmem]
    exact (require_int_eq_ok_iff hs).2 hmem

theorem Coherent.require_idAt_eq_ok_iff (hc : c.Coherent) :
    c.require k (c.idAt k s) = .ok s ↔ c.Registered k s :=
  Catalog.require_idAt_eq_ok_iff (hc.sorted k) (hc.idAt_eq k)

/-- Every reference of a registered definition names a registered definition. -/
theorem Coherent.registered_ref (hc : c.Coherent) {e : Int × Nat} (he : e ∈ (c.registry k).entries)
    {r : Kind × Nat} (hr : r ∈ c.refsAt k e.2) : c.Registered r.1 r.2 :=
  hc.require_idAt_eq_ok_iff.1 (hc.refs k e he r hr)

/-- A registered definition has its key for its id. -/
theorem Coherent.idAt_of_registered (hc : c.Coherent) {key : Int}
    (h : (key, s) ∈ (c.registry k).entries) : c.idAt k s = .int key :=
  hc.idAt_eq k _ h

/-! ## Listing a coherent registry -/

/-- A coherent catalog lists the definitions of a registry by strictly ascending id. -/
theorem Coherent.ids_ascending (hc : c.Coherent) (k : Kind) :
    ∃ ids : List Int, (c.registry k).slots.map (c.idAt k) = ids.map .int ∧
      ids.Pairwise (· < ·) := by
  refine ⟨(c.registry k).entries.map (·.1), ?_, ?_⟩
  · rw [Registry.slots, List.map_map, List.map_map]
    exact List.map_congr_left fun e he => hc.idAt_eq k e he
  · exact List.pairwise_map.2 (hc.sorted k)

/-- A catalog counts as many definitions in a registry as it lists. -/
theorem count_eq_length_definitions (k : Kind) :
    (c.registry k).size = ((c.registry k).slots.map (c.idAt k)).length := by
  rw [List.length_map, Registry.size_eq_length_slots]

/-- The next free id of a coherent catalog's registry is not registered. -/
theorem Coherent.nextId_not_contains (hc : c.Coherent) (k : Kind) :
    (c.registry k).contains (c.registry k).nextId = false :=
  (hc.sorted k).nextId_not_contains

/-! ## Registering a new definition -/

/-- The catalog `c₁` has the registries of `c` and the same definition in every slot registered
in `c`: it may only hold more definitions. -/
structure Agrees (c c₁ : Catalog) : Prop where
  registry : ∀ k, c₁.registry k = c.registry k
  affix : ∀ s, c.Registered .affix s → c₁.affix ⟨s⟩ = c.affix ⟨s⟩
  pool : ∀ s, c.Registered .affixPool s → c₁.pool ⟨s⟩ = c.pool ⟨s⟩
  item : ∀ s, c.Registered .item s → c₁.item ⟨s⟩ = c.item ⟨s⟩
  lootPool : ∀ s, c.Registered .lootPool s → c₁.lootPool ⟨s⟩ = c.lootPool ⟨s⟩

theorem Agrees.idAt (hag : c.Agrees c₁) (h : c.Registered k s) : c₁.idAt k s = c.idAt k s := by
  cases k
  · exact congrArg AffixDef.id (hag.affix s h)
  · exact congrArg PoolDef.id (hag.pool s h)
  · exact congrArg ItemDef.id (hag.item s h)
  · exact congrArg LootPoolDef.id (hag.lootPool s h)

theorem Agrees.refsAt (hag : c.Agrees c₁) (h : c.Registered k s) :
    c₁.refsAt k s = c.refsAt k s := by
  cases k
  · rfl
  · simp only [refsAt, hag.pool s h]
  · simp only [refsAt, hag.item s h]
  · simp only [refsAt, hag.lootPool s h]

theorem ne_of_contains_eq_false {r : Registry} {id : Int} (h : r.contains id = false)
    {e : Int × Nat} (he : e ∈ r.entries) : e.1 ≠ id := by
  intro heq
  have : r.contains id = true := Registry.contains_iff.2 ⟨e.2, heq ▸ he⟩
  rw [h] at this
  cases this

section Register

variable {id : Int} (hag : c.Agrees c₁) (hfresh : (c.registry k).contains id = false)
include hag

/-- An entry of a registry after registering `id` at `s` is that new entry or an old one. -/
theorem mem_register {k' : Kind} {e : Int × Nat}
    (he : e ∈ ((c₁.withRegistry k ((c.registry k).insert id s)).registry k').entries) :
    (k' = k ∧ e = (id, s)) ∨ e ∈ (c.registry k').entries := by
  by_cases hk : k' = k
  · subst hk
    rw [registry_withRegistry_self] at he
    rcases Registry.mem_insertEntry_cases he with rfl | he
    · exact .inl ⟨rfl, rfl⟩
    · exact .inr he
  · rw [registry_withRegistry_of_ne _ hk, hag.registry] at he
    exact .inr he

include hfresh in
/-- Registering under a fresh id keeps every definition registered. -/
theorem Registered.register {k' : Kind} {s' : Nat} (h : c.Registered k' s') :
    (c₁.withRegistry k ((c.registry k).insert id s)).Registered k' s' := by
  obtain ⟨key, hmem⟩ := h
  refine ⟨key, ?_⟩
  by_cases hk : k' = k
  · subst hk
    rw [registry_withRegistry_self]
    exact Registry.mem_insertEntry_of_ne hmem (ne_of_contains_eq_false hfresh hmem)
  · rw [registry_withRegistry_of_ne _ hk, hag.registry]
    exact hmem

include hfresh in
/-- Registering, under an id not yet registered, a definition stored in `c₁` that has that id
and whose references are registered keeps a catalog coherent, when `c₁` agrees with it. -/
theorem Coherent.register (hc : c.Coherent) (hid : c₁.idAt k s = .int id)
    (hrefs : ∀ r ∈ c₁.refsAt k s, c.Registered r.1 r.2) :
    (c₁.withRegistry k ((c.registry k).insert id s)).Coherent := by
  have hsorted : ∀ k', ((c₁.withRegistry k ((c.registry k).insert id s)).registry k').Sorted := by
    intro k'
    by_cases hk : k' = k
    · subst hk
      rw [registry_withRegistry_self]
      exact (hc.sorted k').insert
    · rw [registry_withRegistry_of_ne _ hk, hag.registry]
      exact hc.sorted k'
  have hidAt : ∀ k', ∀ e ∈ ((c₁.withRegistry k ((c.registry k).insert id s)).registry k').entries,
      (c₁.withRegistry k ((c.registry k).insert id s)).idAt k' e.2 = .int e.1 := by
    intro k' e he
    rw [idAt_withRegistry]
    rcases mem_register hag he with ⟨rfl, rfl⟩ | he
    · exact hid
    · rw [hag.idAt ⟨e.1, he⟩]
      exact hc.idAt_eq k' e he
  refine ⟨hsorted, hidAt, fun k' e he r hr => ?_⟩
  -- a reference resolves once the definition it names is registered
  refine (Catalog.require_idAt_eq_ok_iff (hsorted r.1) (hidAt r.1)).2 ?_
  rw [refsAt_withRegistry] at hr
  rcases mem_register hag he with ⟨rfl, rfl⟩ | he
  · exact (hrefs r hr).register hag hfresh
  · rw [hag.refsAt ⟨e.1, he⟩] at hr
    exact (hc.registered_ref he hr).register hag hfresh

end Register

/-! ## Taking a key out -/

/-- Taking a key out of its registry keeps a catalog coherent when no registered definition
refers to the definition registered under it. -/
theorem Coherent.erase (hc : c.Coherent) {key : Int} {slot : Nat}
    (hmem : (key, slot) ∈ (c.registry k).entries)
    (hunref : ∀ k' e, e ∈ (c.registry k').entries → (k, slot) ∉ c.refsAt k' e.2) :
    (c.withRegistry k ((c.registry k).erase key)).Coherent := by
  -- the entries after erasing are entries before
  have hsub : ∀ k' e, e ∈ ((c.withRegistry k ((c.registry k).erase key)).registry k').entries →
      e ∈ (c.registry k').entries := by
    intro k' e he
    by_cases hk : k' = k
    · subst hk
      rw [registry_withRegistry_self] at he
      exact (Registry.mem_erase.1 he).1
    · rwa [registry_withRegistry_of_ne _ hk] at he
  have hsorted : ∀ k', ((c.withRegistry k ((c.registry k).erase key)).registry k').Sorted := by
    intro k'
    by_cases hk : k' = k
    · subst hk
      rw [registry_withRegistry_self]
      exact (hc.sorted k').erase
    · rw [registry_withRegistry_of_ne _ hk]
      exact hc.sorted k'
  have hidAt : ∀ k', ∀ e ∈ ((c.withRegistry k ((c.registry k).erase key)).registry k').entries,
      (c.withRegistry k ((c.registry k).erase key)).idAt k' e.2 = .int e.1 := by
    intro k' e he
    rw [idAt_withRegistry]
    exact hc.idAt_eq k' e (hsub k' e he)
  refine ⟨hsorted, hidAt, fun k' e he r hr => ?_⟩
  refine (Catalog.require_idAt_eq_ok_iff (hsorted r.1) (hidAt r.1)).2 ?_
  rw [refsAt_withRegistry] at hr
  have he' := hsub k' e he
  obtain ⟨keyr, hmemr⟩ := hc.registered_ref he' hr
  refine ⟨keyr, ?_⟩
  by_cases hk : r.1 = k
  · -- the reference is of the kind taken out, and its key is kept, since a definition under the
    -- key taken out would be the unreferenced one
    rw [hk] at hmemr ⊢
    rw [registry_withRegistry_self]
    refine Registry.mem_erase.2 ⟨hmemr, fun hkey => ?_⟩
    have hslot := (hc.sorted k).eq_of_mem hmemr hmem hkey
    simp only [Prod.mk.injEq] at hslot
    exact hunref k' e he' (by rw [← hk, ← hslot.2]; exact hr)
  · rw [registry_withRegistry_of_ne _ hk]
    exact hmemr

end Catalog

end Loot
