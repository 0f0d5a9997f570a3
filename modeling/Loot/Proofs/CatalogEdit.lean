import Loot.Proofs.CatalogLoad
import Loot.Engine
import Mathlib

/-!
# Editing keeps a catalog coherent

Adding a record under an id not registered yet, and removing a key that nothing refers to, keep a
catalog coherent. So a catalog loaded from files stays coherent through any run of such edits,
with its registries ascending and its next free id unregistered
(`loaded_catalog_stays_coherent`).
-/

namespace Loot

open Loot.Json

namespace Catalog

variable {c c₁ c' : Catalog} {k : Kind}

/-! ## Adding a record -/

/-- Storing one record in a coherent catalog keeps every registered definition, gives the new
definition the record's id, and links its references to registered definitions. -/
theorem Coherent.storeRecord_eq_ok (hc : c.Coherent) {room : Nat} {raw : Value} {id : Int}
    {s : Nat} (h : c.storeRecord room k raw = .ok (c₁, id, s)) :
    c.Agrees c₁ ∧ c₁.idAt k s = .int id ∧ ∀ r ∈ c₁.refsAt k s, c.Registered r.1 r.2 := by
  cases k
  · obtain ⟨⟨id', d⟩, hread, h₁⟩ := except_bind_eq_ok.1 h
    cases except_pure_eq_ok.1 h₁
    refine ⟨hc.agrees_storeAffix d, ?_, ?_⟩
    · show (c.storeAffix d).1.idAt .affix (c.storeAffix d).2 = .int id
      simpa using (AffixDef.ofValue_eq_ok hread).1
    · show ∀ r ∈ (c.storeAffix d).1.refsAt .affix (c.storeAffix d).2, _
      simp
  · obtain ⟨r, -, h₁⟩ := except_bind_eq_ok.1 h
    obtain ⟨d, hlink, h₂⟩ := except_bind_eq_ok.1 h₁
    cases except_pure_eq_ok.1 h₂
    obtain ⟨hid, hmembers⟩ := WeightedRecord.linkPool_eq_ok hlink
    refine ⟨hc.agrees_storePool d, ?_, ?_⟩
    · show (c.storePool d).1.idAt .affixPool (c.storePool d).2 = .int r.id
      simpa using hid
    · show ∀ x ∈ (c.storePool d).1.refsAt .affixPool (c.storePool d).2, c.Registered x.1 x.2
      rw [refsAt_storePool_self]
      exact registered_map fun m hm => (hmembers m hm).1
  · obtain ⟨r, -, h₁⟩ := except_bind_eq_ok.1 h
    obtain ⟨d, hlink, h₂⟩ := except_bind_eq_ok.1 h₁
    cases except_pure_eq_ok.1 h₂
    obtain ⟨hid, hpools, hfixed⟩ := ItemRecord.link_eq_ok hlink
    refine ⟨hc.agrees_storeItem d, ?_, ?_⟩
    · show (c.storeItem d).1.idAt .item (c.storeItem d).2 = .int r.id
      simpa using hid
    · show ∀ x ∈ (c.storeItem d).1.refsAt .item (c.storeItem d).2, c.Registered x.1 x.2
      rw [refsAt_storeItem_self]
      intro x hx
      rcases List.mem_append.1 hx with hx | hx
      · exact registered_map hpools x hx
      · exact registered_map hfixed x hx
  · obtain ⟨r, -, h₁⟩ := except_bind_eq_ok.1 h
    obtain ⟨d, hlink, h₂⟩ := except_bind_eq_ok.1 h₁
    cases except_pure_eq_ok.1 h₂
    obtain ⟨hid, hmembers⟩ := WeightedRecord.linkLootPool_eq_ok hlink
    refine ⟨hc.agrees_storeLootPool d, ?_, ?_⟩
    · show (c.storeLootPool d).1.idAt .lootPool (c.storeLootPool d).2 = .int r.id
      simpa using hid
    · show ∀ x ∈ (c.storeLootPool d).1.refsAt .lootPool (c.storeLootPool d).2,
        c.Registered x.1 x.2
      rw [refsAt_storeLootPool_self]
      exact registered_map fun m hm => (hmembers m hm).1

/-- Adding a record whose id is not registered yet keeps a catalog coherent. -/
theorem Coherent.addRecord (hc : c.Coherent) {room : Nat} {raw : Value}
    (hfresh : ∀ c₁ id s, c.storeRecord room k raw = .ok (c₁, id, s) →
      (c.registry k).contains id = false)
    (h : c.addRecord room k raw = .ok c') : c'.Coherent := by
  unfold Catalog.addRecord at h
  obtain ⟨⟨c₁, id, s⟩, hstore, h₁⟩ := except_bind_eq_ok.1 h
  cases except_pure_eq_ok.1 h₁
  obtain ⟨hag, hid, hrefs⟩ := hc.storeRecord_eq_ok hstore
  rw [hag.registry k]
  exact hc.register hag (hfresh c₁ id s hstore) hid hrefs

/-! ## Removing a key -/

/-- Removing a key whose definition no registered definition refers to keeps a catalog
coherent; a key that is not registered changes nothing. -/
theorem Coherent.remove (hc : c.Coherent) {key : Value} {o : Option Nat}
    (h : c.remove k key = .ok (c', o))
    (hunref : ∀ slot, o = some slot → ∀ k' e, e ∈ (c.registry k').entries →
      (k, slot) ∉ c.refsAt k' e.2) : c'.Coherent := by
  unfold Catalog.remove at h
  obtain ⟨found, hlookup, h₁⟩ := except_bind_eq_ok.1 h
  obtain ⟨-, hfound⟩ := lookupEntry_eq_ok.1 hlookup
  cases found with
  | none =>
    cases except_pure_eq_ok.1 h₁
    exact hc
  | some e =>
    obtain ⟨key', slot⟩ := e
    cases except_pure_eq_ok.1 h₁
    have hmem : (key', slot) ∈ (c.registry k).entries := List.mem_of_find?_eq_some hfound.symm
    exact hc.erase hmem (hunref slot rfl)

/-! ## Runs of edits -/

/-- The edits that keep a catalog coherent: adding a record whose id is not registered yet, and
removing a key whose definition no registered definition refers to. -/
inductive SafeEdit : Catalog → Catalog → Prop where
  | add {c c' : Catalog} {room : Nat} {k : Kind} {raw : Value} :
      (∀ c₁ id s, c.storeRecord room k raw = .ok (c₁, id, s) →
        (c.registry k).contains id = false) →
      c.addRecord room k raw = .ok c' → SafeEdit c c'
  | remove {c c' : Catalog} {k : Kind} {key : Value} {o : Option Nat} :
      c.remove k key = .ok (c', o) →
      (∀ slot, o = some slot → ∀ k' e, e ∈ (c.registry k').entries →
        (k, slot) ∉ c.refsAt k' e.2) →
      SafeEdit c c'

/-- One safe edit keeps a catalog coherent. -/
theorem Coherent.safeEdit (hc : c.Coherent) (h : SafeEdit c c') : c'.Coherent := by
  cases h with
  | add hfresh hadd => exact hc.addRecord hfresh hadd
  | remove hremove hunref => exact hc.remove hremove hunref

/-- A run of safe edits keeps a catalog coherent. -/
theorem Coherent.safeEdits (hc : c.Coherent) (h : Relation.ReflTransGen SafeEdit c c') :
    c'.Coherent := by
  induction h with
  | refl => exact hc
  | tail _ hstep ih => exact ih.safeEdit hstep

/-! ## Loading, then editing -/

/-- A catalog loaded from the files of a directory is loaded: coherent, with non-negative integer
weights and ascending tiers. Every run of safe edits from it keeps it coherent, so that each
registry lists its definitions by strictly ascending id, counts as many definitions as it lists,
and never has its next free id registered. -/
theorem loaded_catalog_stays_coherent {depth : Nat} {dir : String}
    {files : Kind → Option String} {c c' : Catalog} (hload : ofFiles depth dir files = .ok c)
    (hrun : Relation.ReflTransGen SafeEdit c c') :
    c.Loaded ∧ c'.Coherent ∧ ∀ k : Kind,
      (∃ ids : List Int, (c'.registry k).slots.map (c'.idAt k) = ids.map .int ∧
        ids.Pairwise (· < ·)) ∧
      (c'.registry k).size = ((c'.registry k).slots.map (c'.idAt k)).length ∧
      (c'.registry k).contains (c'.registry k).nextId = false := by
  have hl : c.Loaded := ofFiles_loaded hload
  have hc' : c'.Coherent := hl.coherent.safeEdits hrun
  exact ⟨hl, hc', fun k =>
    ⟨hc'.ids_ascending k, count_eq_length_definitions k, hc'.nextId_not_contains k⟩⟩

/-- An affix record with id 1 and no tiers. -/
def sampleAffixRecord : Value :=
  .record [("tiers", .record []), ("id", .int 1),
    ("placement", .str (Text.Chars.ofString "Prefix"))]

/-- An affix pool record with id 1 drawing affix 1 with weight 5. -/
def samplePoolRecord : Value :=
  .record [("id", .int 1), ("members", .arr [.record [("weight", .int 5), ("affix_id", .int 1)]])]

/-- The affix the affix record reads as. -/
def sampleAffixDef : AffixDef :=
  { id := .int 1, placement := .before, name := .str (Text.Chars.ofString ""), tiers := ⟨[]⟩ }

/-- The affix pool the pool record reads as, linked to the affix's slot. -/
def samplePoolDef : PoolDef :=
  { id := .int 1, name := .str (Text.Chars.ofString ""), members := [(⟨0⟩, .int 5)] }

/-- The empty catalog after adding the affix and the pool and removing the pool again: the
pool stays in its slot but is no longer registered. -/
def sampleEdited : Catalog :=
  { affixes := #[sampleAffixDef], pools := #[samplePoolDef], affixIds := ⟨[(1, 0)]⟩ }

/-- Loading empty files and then adding an affix and a pool and removing the pool is a run of
safe edits, and the catalog it ends in is coherent. -/
theorem sample_edits_coherent :
    ofFiles 989 "data" (fun _ => some "[]") = .ok empty ∧
      Relation.ReflTransGen SafeEdit empty sampleEdited ∧
      empty.Loaded ∧ sampleEdited.Coherent ∧ ∀ k : Kind,
      (∃ ids : List Int,
        (sampleEdited.registry k).slots.map (sampleEdited.idAt k) = ids.map .int ∧
          ids.Pairwise (· < ·)) ∧
      (sampleEdited.registry k).size =
        ((sampleEdited.registry k).slots.map (sampleEdited.idAt k)).length ∧
      (sampleEdited.registry k).contains (sampleEdited.registry k).nextId = false := by
  have hload : ofFiles 989 "data" (fun _ => some "[]") = .ok empty := by cbv
  let c₁ : Catalog := { affixes := #[sampleAffixDef], affixIds := ⟨[(1, 0)]⟩ }
  let c₂ : Catalog := { sampleEdited with poolIds := ⟨[(1, 0)]⟩ }
  have hadd₁ : empty.addRecord Engine.stepRoom .affix sampleAffixRecord = .ok c₁ := by cbv
  have hadd₂ : c₁.addRecord Engine.stepRoom .affixPool samplePoolRecord = .ok c₂ := by cbv
  have hremove : c₂.remove .affixPool (.int 1) = .ok (sampleEdited, some 0) := by cbv
  have h₁ : SafeEdit empty c₁ := .add (fun _ _ _ _ => rfl) hadd₁
  have h₂ : SafeEdit c₁ c₂ := .add (fun _ _ _ _ => rfl) hadd₂
  -- the removed pool is slot 0, and nothing in the catalog refers to a pool
  have h₃ : SafeEdit c₂ sampleEdited := by
    refine .remove hremove ?_
    intro slot hslot k' e he
    cases k' <;> simp_all [c₂, sampleEdited, refsAt, registry, Registry.empty]
  have hrun : Relation.ReflTransGen SafeEdit empty sampleEdited :=
    ((Relation.ReflTransGen.single h₁).tail h₂).tail h₃
  exact ⟨hload, hrun, loaded_catalog_stays_coherent hload hrun⟩

end Catalog

end Loot
