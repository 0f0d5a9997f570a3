import Loot.Proofs.ItemRoll
import Loot.Proofs.CatalogEdit

/-!
# Drops from a loot pool

A drop draws one loot pool member by weight and rolls the item it refers to with the default
criteria. For non-negative integer weights and items registered in a coherent catalog, a drop is
nothing exactly when the weights sum to zero, is otherwise the item of the member drawn, and has a
defined rarity, since the default count weighting gives at most six affixes (`rollLoot_drop`).
-/

namespace Loot

open Loot.Json Loot.Random

variable {c : Catalog} {s s' s₁ : Source}

/-! ## Items rolled with the default criteria -/

/-- The default count weighting draws a count from one to six. -/
theorem rollCount_default (h : (rollCount defaultWeighting).run s = .ok N s') :
    ∃ k : Int, N = .int k ∧ 1 ≤ k ∧ k ≤ 6 := by
  let pairs : List (Value × Value) := [(.int 1, .int 500), (.int 2, .int 300), (.int 3, .int 100),
    (.int 4, .int 20), (.int 5, .int 5), (.int 6, .int 1)]
  have hweighting : defaultWeighting = pairs.map fun e => [e.1, e.2] := rfl
  have hws : IntWeights (pairs.map (·.2)) [500, 300, 100, 20, 5, 1] := rfl
  rw [hweighting] at h
  rcases rollCount_ints_eq_ok hws h with ⟨hsum, -⟩ | ⟨e, he, rfl, -⟩
  · simp at hsum
  · simp only [pairs, List.mem_cons, List.not_mem_nil, or_false] at he
    rcases he with rfl | rfl | rfl | rfl | rfl | rfl <;> simp

/-- An item without fixed affixes, rolled with the default criteria, has at most six affixes. -/
theorem rollItem_default_length_le {r : Ref .item} {I : RolledItem}
    (hfixed : (c.item r).fixed = []) (h : (rollItem c r {}).run s = .ok I s') :
    I.affixes.length ≤ 6 := by
  obtain ⟨-, s₂, hpools⟩ := rollItem_eq_ok_of_fixed_nil hfixed h
  obtain ⟨N, s₃, ms, n, hcount, -, hn, hdraw⟩ := rollFromPools_eq_ok hpools
  obtain ⟨k, rfl, hk₁, hk₆⟩ := rollCount_default hcount
  have hn₆ : n ≤ 6 := by
    simp only [Value.repeatCount, Except.ok.injEq] at hn
    omega
  have hlen := drawAffixes_length_le n [] [] s₃ hdraw
  rw [List.length_nil] at hlen
  omega

/-- An item rolled from a definition is an item of that definition. -/
theorem rollItem_item {r : Ref .item} {crit : ItemCriteria} {I : RolledItem}
    (h : (rollItem c r crit).run s = .ok I s') : I.item = r := by
  simp only [rollItem] at h
  -- both ways of rolling the affixes end by naming the definition
  split at h
  all_goals
    obtain ⟨affixes, s₂, -, hrest⟩ := run_bind_eq_ok.1 h
    obtain ⟨g, s₃, -, hrest⟩ := run_bind_eq_ok.1 hrest
    obtain ⟨rfl, -⟩ := run_pure_eq_ok.1 hrest
    rfl

/-- The rarity of an item is defined when an item without fixed affixes has at most six of them:
it is fabled exactly when the definition has fixed affixes. -/
theorem RolledItem.rarity_eq_ok {I : RolledItem}
    (hlen : (c.item I.item).fixed = [] → I.affixes.length ≤ 6) :
    ∃ r, I.rarity c = .ok r ∧ (r = .fabled ↔ (c.item I.item).fixed ≠ []) := by
  by_cases hfixed : (c.item I.item).fixed = []
  · have h₆ := hlen hfixed
    simp only [RolledItem.rarity, hfixed, List.isEmpty_nil, Bool.not_true, Bool.false_eq_true,
      if_false, ne_eq, not_true_eq_false, iff_false]
    split_ifs <;> simp
  · have hne : (c.item I.item).fixed.isEmpty = false := by simpa using hfixed
    exact ⟨.fabled, by simp [RolledItem.rarity, hne], by simpa using hfixed⟩

/-! ## The weighted choice -/

section Choice

variable {L : LootPoolDef} {j : Nat}

/-- A draw that chooses nothing drops nothing. -/
theorem rollLoot_of_index_none
    (h : (weightedIndexOf (L.members.map (·.2))).run s = .ok none s₁) :
    (rollLoot c L).run s = .ok none s₁ := by
  simp only [rollLoot, chooseItemId, EStateM.run_bind, h]
  rfl

/-- A draw that fails makes the drop fail the same way. -/
theorem rollLoot_of_index_error {e : Fault}
    (h : (weightedIndexOf (L.members.map (·.2))).run s = .error e s₁) :
    (rollLoot c L).run s = .error e s₁ := by
  simp only [rollLoot, chooseItemId, EStateM.run_bind, h]

/-- A draw that chooses a member of a registered item in a coherent catalog drops the item
rolled from that very member with the default criteria. -/
theorem rollLoot_of_index_some (hc : c.Coherent) (hj : j < L.members.length)
    (hreg : c.Registered .item L.members[j].1.slot)
    (h : (weightedIndexOf (L.members.map (·.2))).run s = .ok (some j) s₁) :
    (rollLoot c L).run s = (some <$> rollItem c L.members[j].1 {}).run s₁ := by
  obtain ⟨key, hmem⟩ := hreg
  -- the chosen id is the member's registered key, which the registry resolves to its slot
  have hid : (c.item L.members[j].1).id = .int key := hc.idAt_of_registered hmem
  have hreq : c.require .item (c.item L.members[j].1).id = .ok L.members[j].1.slot :=
    hc.require_idAt_eq_ok_iff.2 ⟨key, hmem⟩
  have hchoice : (chooseItemId c L).run s = .ok (some (.int key)) s₁ := by
    simp only [chooseItemId, EStateM.run_bind, h, List.getElem?_eq_getElem hj, Option.map_some,
      hid]
    rfl
  rw [hid] at hreq
  simp only [rollLoot, EStateM.run_bind, hchoice, hreq, fromExcept]
  rfl

variable {ws : List Int} (hc : c.Coherent) (hrefs : ∀ m ∈ L.members, c.Registered .item m.1.slot)
  (hws : IntWeights (L.members.map (·.2)) ws) (hnn : ∀ w ∈ ws, 0 ≤ w)

include hc hrefs hws hnn

/-- What a drop can be: nothing, when the weights sum to zero, with nothing drawn; or an item
rolled from a member the weighted draw chose. -/
theorem rollLoot_eq_ok {o : Option RolledItem} (h : (rollLoot c L).run s = .ok o s') :
    (o = none ∧ ws.sum = 0 ∧ s' = s) ∨
      ∃ j s₁, ∃ hj : j < L.members.length,
        (weightedIndexOf (L.members.map (·.2))).run s = .ok (some j) s₁ ∧
        ∃ I, o = some I ∧ (rollItem c L.members[j].1 {}).run s₁ = .ok I s' := by
  have hidx := weightedIndexOf_ints hws hnn
  cases hdraw : (weightedIndexOf (L.members.map (·.2))).run s with
  | error e s₁ =>
    rw [rollLoot_of_index_error hdraw] at h
    cases h
  | ok i s₁ =>
    cases i with
    | none =>
      -- nothing is chosen only when the weights sum to zero, and then nothing is drawn
      rw [rollLoot_of_index_none hdraw] at h
      cases h
      rw [hidx] at hdraw
      rcases weightedIndex_ints_eq_ok hnn hdraw with ⟨hsum, -, rfl⟩ | ⟨-, r, i, -, -, hi, -⟩
      · exact .inl ⟨rfl, hsum, rfl⟩
      · cases hi
    | some j =>
      obtain ⟨hj', -⟩ := weightedIndexOf_pos hws hnn hdraw
      have hj : j < L.members.length := by simpa using hj'
      rw [rollLoot_of_index_some hc hj (hrefs _ (List.getElem_mem hj)) hdraw] at h
      obtain ⟨I, hI, rfl⟩ := run_map_eq_ok.1 h
      exact .inr ⟨j, s₁, hj, rfl, I, rfl, hI⟩

/-- A loot pool with non-negative integer weights whose items are registered in a coherent
catalog drops nothing, with nothing drawn, exactly when its weights sum to zero. Otherwise the
member the weighted draw chooses has a positive weight, and the drop is the item rolled with the
default criteria from that very member. Every item dropped has at most six affixes unless its
definition has fixed affixes, and so has a rarity, fabled exactly when the definition has fixed
affixes. -/
theorem rollLoot_drop (s : Source) :
    (∀ s', (rollLoot c L).run s = .ok none s' ↔ ws.sum = 0 ∧ s' = s) ∧
    (∀ j s₁, (weightedIndexOf (L.members.map (·.2))).run s = .ok (some j) s₁ →
      ∃ hj : j < L.members.length,
        (∃ w : Int, L.members[j].2.toNum? = some (.int w) ∧ 0 < w) ∧
        (rollLoot c L).run s = (some <$> rollItem c L.members[j].1 {}).run s₁) ∧
    (∀ I s', (rollLoot c L).run s = .ok (some I) s' →
      ((c.item I.item).fixed = [] → I.affixes.length ≤ 6) ∧
      ∃ r, I.rarity c = .ok r ∧ (r = .fabled ↔ (c.item I.item).fixed ≠ [])) := by
  refine ⟨fun s' => ⟨fun h => ?_, ?_⟩, fun j s₁ h => ?_, fun I s' h => ?_⟩
  · rcases rollLoot_eq_ok hc hrefs hws hnn h with ⟨-, hsum, rfl⟩ | ⟨j, s₁, hj, -, I, hI, -⟩
    · exact ⟨hsum, rfl⟩
    · cases hI
  · rintro ⟨hsum, hs⟩
    have hdraw : (weightedIndex (ws.map .int)).run s = .ok none s :=
      weightedIndex_ints_of_sum_eq_zero hnn hsum
    rw [← weightedIndexOf_ints hws hnn] at hdraw
    rw [hs]
    exact rollLoot_of_index_none hdraw
  · obtain ⟨hj', w, hw, hpos⟩ := weightedIndexOf_pos hws hnn h
    have hj : j < L.members.length := by simpa using hj'
    refine ⟨hj, ⟨w, by simpa using hw, hpos⟩, ?_⟩
    exact rollLoot_of_index_some hc hj (hrefs _ (List.getElem_mem hj)) h
  · rcases rollLoot_eq_ok hc hrefs hws hnn h with ⟨hI, -⟩ | ⟨j, s₁, hj, -, I', hI, hroll⟩
    · cases hI
    · cases hI
      have hitem := rollItem_item hroll
      have hlen : (c.item I.item).fixed = [] → I.affixes.length ≤ 6 := fun hfixed =>
        rollItem_default_length_le (hitem ▸ hfixed) hroll
      exact ⟨hlen, RolledItem.rarity_eq_ok hlen⟩

end Choice

/-- An affix with id 1 and no tiers. -/
def sampleLootAffix : AffixDef where
  id := .int 1
  placement := .before
  name := .str (Text.Chars.ofString "")
  tiers := ⟨[]⟩

/-- An affix pool drawing the first affix. -/
def sampleLootPool : PoolDef where
  id := .int 1
  name := .str (Text.Chars.ofString "")
  members := [(⟨0⟩, .int 1)]

/-- An item rolled from the first pool, without fixed affixes. -/
def sampleLootItem : ItemDef where
  id := .int 1
  classification := .currency
  name := .str (Text.Chars.ofString "")
  pools := [⟨0⟩]
  fixed := []

/-- A loot pool dropping the first item with weight zero or two. -/
def sampleLoot : LootPoolDef where
  id := .int 1
  name := .str (Text.Chars.ofString "")
  members := [(⟨0⟩, .int 0), (⟨0⟩, .int 2)]

/-- A catalog of one affix, one pool drawing it, one item rolled from the pool, and the loot
pool. -/
def sampleLootCatalog : Catalog where
  affixes := #[sampleLootAffix]
  pools := #[sampleLootPool]
  items := #[sampleLootItem]
  lootPools := #[sampleLoot]
  affixIds := ⟨[(1, 0)]⟩
  poolIds := ⟨[(1, 0)]⟩
  itemIds := ⟨[(1, 0)]⟩
  lootPoolIds := ⟨[(1, 0)]⟩

/-- The sample catalog is coherent: it is built from the empty catalog by adding its four
records, each under an id not registered yet. -/
theorem sampleLootCatalog_coherent : sampleLootCatalog.Coherent := by
  have h₁ : Catalog.empty.addRecord Engine.stepRoom .affix (.record [("tiers", .record []), ("id", .int 1),
      ("placement", .str (Text.Chars.ofString "Prefix"))]) =
      .ok { affixes := #[sampleLootAffix], affixIds := ⟨[(1, 0)]⟩ } := by cbv
  have h₂ : Catalog.addRecord { affixes := #[sampleLootAffix], affixIds := ⟨[(1, 0)]⟩ } Engine.stepRoom .affixPool
      (.record [("id", .int 1),
        ("members", .arr [.record [("weight", .int 1), ("affix_id", .int 1)]])]) =
      .ok { affixes := #[sampleLootAffix], pools := #[sampleLootPool],
            affixIds := ⟨[(1, 0)]⟩, poolIds := ⟨[(1, 0)]⟩ } := by cbv
  have h₃ : Catalog.addRecord { affixes := #[sampleLootAffix], pools := #[sampleLootPool],
                                affixIds := ⟨[(1, 0)]⟩, poolIds := ⟨[(1, 0)]⟩ } Engine.stepRoom .item
      (.record [("id", .int 1), ("classification", .str (Text.Chars.ofString "Currency")),
        ("affix_pools", .arr [.int 1])]) =
      .ok { sampleLootCatalog with lootPools := #[], lootPoolIds := .empty } := by cbv
  have h₄ : Catalog.addRecord { sampleLootCatalog with lootPools := #[], lootPoolIds := .empty }
      Engine.stepRoom .lootPool (.record [("id", .int 1), ("members",
        .arr [.record [("weight", .int 0), ("item_id", .int 1)],
          .record [("weight", .int 2), ("item_id", .int 1)]])]) = .ok sampleLootCatalog := by cbv
  exact ((((Catalog.empty_loaded.coherent.addRecord (fun _ _ _ _ => rfl) h₁).addRecord
    (fun _ _ _ _ => rfl) h₂).addRecord (fun _ _ _ _ => rfl) h₃).addRecord (fun _ _ _ _ => rfl) h₄)

/-- The sample loot pool satisfies what drops are described under: its items are registered in a
coherent catalog and its weights are the non-negative integers zero and two. -/
theorem sample_loot_drop :
    sampleLootCatalog.Coherent ∧
    (∀ m ∈ sampleLoot.members, sampleLootCatalog.Registered .item m.1.slot) ∧
    IntWeights (sampleLoot.members.map (·.2)) [0, 2] ∧ (∀ w ∈ ([0, 2] : List Int), 0 ≤ w) ∧
    ((∀ s', (rollLoot sampleLootCatalog sampleLoot).run (Source.ofSeed 42) = .ok none s' ↔
        ([0, 2] : List Int).sum = 0 ∧ s' = Source.ofSeed 42) ∧
      (∀ j s₁, (weightedIndexOf (sampleLoot.members.map (·.2))).run (Source.ofSeed 42) =
          .ok (some j) s₁ →
        ∃ hj : j < sampleLoot.members.length,
          (∃ w : Int, sampleLoot.members[j].2.toNum? = some (.int w) ∧ 0 < w) ∧
          (rollLoot sampleLootCatalog sampleLoot).run (Source.ofSeed 42) =
            (some <$> rollItem sampleLootCatalog sampleLoot.members[j].1 {}).run s₁) ∧
      (∀ I s', (rollLoot sampleLootCatalog sampleLoot).run (Source.ofSeed 42) = .ok (some I) s' →
        ((sampleLootCatalog.item I.item).fixed = [] → I.affixes.length ≤ 6) ∧
        ∃ r, I.rarity sampleLootCatalog = .ok r ∧
          (r = .fabled ↔ (sampleLootCatalog.item I.item).fixed ≠ []))) := by
  have hrefs : ∀ m ∈ sampleLoot.members, sampleLootCatalog.Registered .item m.1.slot := by
    intro m hm
    simp only [sampleLoot, List.mem_cons, List.not_mem_nil, or_false] at hm
    rcases hm with rfl | rfl <;> exact ⟨1, by simp [sampleLootCatalog, Catalog.registry]⟩
  have hws : IntWeights (sampleLoot.members.map (·.2)) [0, 2] := intWeights_map_int [0, 2]
  have hnn : ∀ w ∈ ([0, 2] : List Int), 0 ≤ w := by decide
  exact ⟨sampleLootCatalog_coherent, hrefs, hws, hnn,
    rollLoot_drop sampleLootCatalog_coherent hrefs hws hnn (Source.ofSeed 42)⟩

end Loot
