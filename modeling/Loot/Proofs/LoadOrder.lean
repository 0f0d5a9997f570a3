import Mathlib
import Loot.Catalog.Load
import Loot.Proofs.Draw
import Loot.Proofs.Registry
import Loot.Proofs.Quoting

/-!
# The order in which loading reports defects

A record can fail to be read, reference what its registry lacks, or repeat an earlier id. Affix
records are read and registered one at a time; pool, item and loot pool records are all read
before any is linked, so a record that cannot be read is reported first
(`readThenLoad_eq_error_iff`). `FirstFailure` and `FirstDefect` say which record is first, and
`load_reports_first_defect` gathers the order.
-/

namespace Loot

open Loot.Json

section FirstFailure

variable {α β ε : Type} {f : α → Except ε β} {x : α} {xs : List α} {e : ε}

/-- `e` is the failure of `f` on the first element of `xs` on which it fails: it succeeds on
every element before. -/
def FirstFailure (f : α → Except ε β) (xs : List α) (e : ε) : Prop :=
  ∃ pre x post, xs = pre ++ x :: post ∧ (∀ y ∈ pre, ∃ b, f y = .ok b) ∧ f x = .error e

theorem not_firstFailure_nil : ¬FirstFailure f [] e := by
  rintro ⟨pre, x, post, h, -, -⟩
  simp at h

theorem firstFailure_cons_iff :
    FirstFailure f (x :: xs) e ↔
      f x = .error e ∨ (∃ b, f x = .ok b) ∧ FirstFailure f xs e := by
  constructor
  · rintro ⟨pre, y, post, h, hpre, hy⟩
    cases pre with
    | nil =>
      obtain ⟨rfl, rfl⟩ := List.cons.inj h
      exact .inl hy
    | cons z pre =>
      obtain ⟨rfl, rfl⟩ := List.cons.inj h
      exact .inr ⟨hpre x List.mem_cons_self, pre, y, post, rfl,
        fun w hw => hpre w (List.mem_cons_of_mem x hw), hy⟩
  · rintro (hx | ⟨hx, pre, y, post, rfl, hpre, hy⟩)
    · exact ⟨[], x, xs, rfl, by simp, hx⟩
    · refine ⟨x :: pre, y, post, rfl, fun w hw => ?_, hy⟩
      rcases List.mem_cons.1 hw with rfl | hw
      · exact hx
      · exact hpre w hw

/-- Running `f` over a list fails exactly with its failure on the first element it fails on. -/
theorem mapM_eq_error_iff : xs.mapM f = .error e ↔ FirstFailure f xs e := by
  induction xs with
  | nil => exact ⟨fun h => (nomatch h), fun h => absurd h not_firstFailure_nil⟩
  | cons x xs ih =>
    rw [List.mapM_cons, firstFailure_cons_iff, ← ih]
    cases f x with
    | error e' => simp [eq_comm]
    | ok b => cases xs.mapM f <;> simp [Functor.map, Except.map]

/-- A function succeeds on every element exactly when it has no first failure. -/
theorem forall_ok_iff_not_firstFailure :
    (∀ x ∈ xs, ∃ b, f x = .ok b) ↔ ∀ e, ¬FirstFailure f xs e := by
  induction xs with
  | nil => simp [not_firstFailure_nil]
  | cons x xs ih =>
    simp only [List.mem_cons, forall_eq_or_imp, firstFailure_cons_iff, ih]
    cases f x with
    | error e' => simp
    | ok b => simp

end FirstFailure

theorem Registry.contains_insert {r : Registry} {id j : Int} {slot : Nat} :
    (r.insert id slot).contains j = true ↔ j = id ∨ r.contains j = true := by
  simp only [Registry.contains_iff, Registry.insert]
  constructor
  · rintro ⟨s, hs⟩
    rcases Registry.mem_insertEntry_cases hs with h | h
    · exact .inl (Prod.mk.inj h).1
    · exact .inr ⟨s, h⟩
  · rintro (rfl | ⟨s, hs⟩)
    · exact ⟨slot, Registry.mem_insertEntry_self _⟩
    · by_cases hj : j = id
      · exact ⟨slot, hj ▸ Registry.mem_insertEntry_self _⟩
      · exact ⟨s, Registry.mem_insertEntry_of_ne hs hj⟩

section Registering

variable {α δ : Type} (store : Catalog → δ → Catalog × Nat) (k : Kind)
  (entry : α → Except Fault (Int × δ))

/-- One step of loading records into a new registry: the record gives its id and definition, or
fails; the definition is stored in a new slot and registered under the id, which must be new. -/
def loadStep (acc : Catalog × Registry) (x : α) : Except Fault (Catalog × Registry) := do
  let (id, d) ← entry x
  let (c, slot) := store acc.1 d
  pure (c, ← Catalog.register k acc.2 id slot)

/-- `e` is what loading the records `xs` reports into a registry that holds the ids `seen`: every
record before some record gives an entry, under ids that are distinct and not in `seen`, and that
record fails with `e`, or gives an id that an earlier record or `seen` holds, and `e` is the
duplicate. -/
def FirstDefect (seen : List Int) (xs : List α) (e : Fault) : Prop :=
  ∃ pre x post es, xs = pre ++ x :: post ∧ pre.mapM entry = .ok es ∧
    (es.map (·.1)).Nodup ∧ (∀ id ∈ es.map (·.1), id ∉ seen) ∧
    (entry x = .error e ∨
      ∃ id d, entry x = .ok (id, d) ∧ (id ∈ es.map (·.1) ∨ id ∈ seen) ∧
        e = .load (.duplicate k id))

variable {store k entry} {seen : List Int} {x : α} {xs : List α} {e : Fault}

theorem not_firstDefect_nil : ¬FirstDefect k entry seen [] e := by
  rintro ⟨pre, x, post, es, h, -⟩
  simp at h

/-- An id held by an earlier record or by `seen` is held, once the first earlier record is
loaded, by a later one or by `seen` with that record's id. -/
theorem mem_ids_cons_or_iff {j i : Int} {d : δ} {es : List (Int × δ)} :
    (j ∈ ((i, d) :: es).map (·.1) ∨ j ∈ seen) ↔
      (j ∈ es.map (·.1) ∨ j ∈ i :: seen) := by
  simp only [List.map_cons, List.mem_cons]
  grind

theorem firstDefect_cons_iff :
    FirstDefect k entry seen (x :: xs) e ↔ entry x = .error e ∨
      ∃ id d, entry x = .ok (id, d) ∧
        (id ∈ seen ∧ e = .load (.duplicate k id) ∨
          id ∉ seen ∧ FirstDefect k entry (id :: seen) xs e) := by
  constructor
  · rintro ⟨pre, y, post, es, h, hmap, hnd, hfresh, hy⟩
    cases pre with
    | nil =>
      obtain ⟨rfl, rfl⟩ := List.cons.inj h
      cases hmap
      rcases hy with hy | ⟨id, d, hy, hid, he⟩
      · exact .inl hy
      · exact .inr ⟨id, d, hy, .inl ⟨by simpa using hid, he⟩⟩
    | cons z pre =>
      obtain ⟨rfl, rfl⟩ := List.cons.inj h
      obtain ⟨⟨id, d⟩, es', hx, hmap', rfl⟩ := mapM_cons_eq_ok.1 hmap
      simp only [List.map_cons, List.nodup_cons, List.mem_cons, forall_eq_or_imp] at hnd hfresh
      -- the first record is registered, so the rest is loaded with its id held
      refine .inr ⟨id, d, hx, .inr ⟨hfresh.1, pre, y, post, es', rfl, hmap', hnd.2, ?_, ?_⟩⟩
      · intro j hj
        simp only [List.mem_cons, not_or]
        exact ⟨fun hji => hnd.1 (hji ▸ hj), hfresh.2 j hj⟩
      · simpa only [mem_ids_cons_or_iff] using hy
  · rintro (hx | ⟨id, d, hx, ⟨hs, he⟩ |
      ⟨hs, pre, y, post, es, rfl, hmap, hnd, hfresh, hy⟩⟩)
    · exact ⟨[], x, xs, [], rfl, rfl, List.nodup_nil, by simp, .inl hx⟩
    · exact ⟨[], x, xs, [], rfl, rfl, List.nodup_nil, by simp,
        .inr ⟨id, d, hx, .inr hs, he⟩⟩
    · refine ⟨x :: pre, y, post, (id, d) :: es, rfl, mapM_cons_eq_ok.2 ⟨_, _, hx, hmap, rfl⟩,
        ?_, ?_, ?_⟩
      · simp only [List.map_cons, List.nodup_cons]
        exact ⟨fun hid => hfresh id hid List.mem_cons_self, hnd⟩
      · simp only [List.map_cons, List.mem_cons, forall_eq_or_imp]
        exact ⟨hs, fun j hj => fun hjs => hfresh j hj (List.mem_cons_of_mem id hjs)⟩
      · simpa only [mem_ids_cons_or_iff] using hy

theorem loadStep_of_error {acc : Catalog × Registry} (hx : entry x = .error e) :
    loadStep store k entry acc x = .error e := by
  simp [loadStep, hx]

theorem loadStep_of_ok {acc : Catalog × Registry} {id : Int} {d : δ}
    (hx : entry x = .ok (id, d)) :
    loadStep store k entry acc x =
      if acc.2.contains id then .error (.load (.duplicate k id))
      else .ok ((store acc.1 d).1, acc.2.insert id (store acc.1 d).2) := by
  simp only [loadStep, hx, except_ok_bind, Catalog.register]
  split <;> rfl

/-- Loading records one at a time into a registry that holds the ids `seen` reports exactly the
first defect. -/
theorem foldlM_loadStep_eq_error_iff :
    ∀ {xs : List α} {acc : Catalog × Registry} {seen : List Int},
      (∀ j, acc.2.contains j = true ↔ j ∈ seen) →
      (xs.foldlM (loadStep store k entry) acc = .error e ↔ FirstDefect k entry seen xs e)
  | [], acc, seen, _ => ⟨fun h => (nomatch h), fun h => absurd h not_firstDefect_nil⟩
  | x :: xs, acc, seen, hseen => by
    rw [List.foldlM_cons, firstDefect_cons_iff]
    cases hx : entry x with
    | error e' =>
      rw [loadStep_of_error hx]
      simp [eq_comm]
    | ok p =>
      obtain ⟨id, d⟩ := p
      rw [loadStep_of_ok hx]
      by_cases hc : acc.2.contains id = true
      · have hid : id ∈ seen := (hseen id).1 hc
        simp [hc, hid, eq_comm]
      · have hid : id ∉ seen := fun h => hc ((hseen id).2 h)
        have hseen' :
            ∀ j, (acc.2.insert id (store acc.1 d).2).contains j = true ↔ j ∈ id :: seen :=
          fun j => by rw [Registry.contains_insert, hseen j, List.mem_cons]
        rw [if_neg hc, except_ok_bind, foldlM_loadStep_eq_error_iff hseen']
        simp [hid]

end Registering

section Linking

variable {α β γ δ ε : Type} {xs : List α} {e : ε}

/-- Running a lookup on a key of each element, and building a result from each answer, fails as
the lookup does on the first key it fails on. -/
theorem mapM_bind_pure_eq_error_iff {f : γ → Except ε δ} {key : α → γ} {g : α → δ → β} :
    (xs.mapM fun x => do pure (g x (← f (key x)))) = .error e ↔
      FirstFailure f (xs.map key) e := by
  rw [mapM_eq_error_iff]
  induction xs with
  | nil =>
    exact ⟨fun h => absurd h not_firstFailure_nil, fun h => absurd h not_firstFailure_nil⟩
  | cons x xs ih =>
    rw [List.map_cons, firstFailure_cons_iff, firstFailure_cons_iff, ih]
    cases f (key x) <;> simp [Functor.map, Except.map]

/-- A lookup followed by a step that always succeeds fails exactly as the lookup does. -/
theorem except_bind_eq_error_of_ok {x : Except ε α} {f : α → Except ε β}
    (hf : ∀ a, ∃ b, f a = .ok b) : (x >>= f) = .error e ↔ x = .error e := by
  cases x with
  | error e' => simp
  | ok a =>
    obtain ⟨b, hb⟩ := hf a
    simp [hb]

variable {reg affixes pools items : Registry} {owner target : Kind} {ownerId id : Int} {e : Fault}

/-- Resolving an id fails exactly when the registry lacks it, naming the owner and the id. -/
theorem resolve_eq_error_iff :
    resolve reg owner ownerId target id = .error e ↔
      reg.find? id = none ∧ e = .load (.unknownReference owner ownerId target id) := by
  unfold resolve
  cases reg.find? id <;> simp [eq_comm]

theorem WeightedRecord.linkPool_eq_error_iff {r : WeightedRecord} :
    r.linkPool affixes = .error e ↔
      FirstFailure (resolve affixes .affixPool r.id .affix) (r.members.map (·.1)) e := by
  unfold WeightedRecord.linkPool
  rw [except_bind_eq_error_of_ok, mapM_bind_pure_eq_error_iff]
  exact fun _ => ⟨_, rfl⟩

theorem WeightedRecord.linkLootPool_eq_error_iff {r : WeightedRecord} :
    r.linkLootPool items = .error e ↔
      FirstFailure (resolve items .lootPool r.id .item) (r.members.map (·.1)) e := by
  unfold WeightedRecord.linkLootPool
  rw [except_bind_eq_error_of_ok, mapM_bind_pure_eq_error_iff]
  exact fun _ => ⟨_, rfl⟩

theorem ItemRecord.link_eq_error_iff {r : ItemRecord} :
    r.link affixes pools = .error e ↔
      FirstFailure (resolve pools .item r.id .affixPool) r.pools e ∨
        (∀ p ∈ r.pools, ∃ s, resolve pools .item r.id .affixPool p = .ok s) ∧
          FirstFailure (resolve affixes .item r.id .affix) r.fixed e := by
  have hpools : ∀ e', r.pools.mapM (fun p => do
      pure (⟨← resolve pools .item r.id .affixPool p⟩ : Ref .affixPool)) = .error e' ↔
      FirstFailure (resolve pools .item r.id .affixPool) r.pools e' := fun e' => by
    rw [mapM_bind_pure_eq_error_iff, List.map_id']
  unfold ItemRecord.link
  -- the pools are resolved first: a failure there is reported, else the fixed affixes are
  cases hps : r.pools.mapM (fun p => do
      pure (⟨← resolve pools .item r.id .affixPool p⟩ : Ref .affixPool)) with
  | error e' =>
    have hall : ¬∀ p ∈ r.pools, ∃ s, resolve pools .item r.id .affixPool p = .ok s :=
      fun h => forall_ok_iff_not_firstFailure.1 h e' ((hpools e').1 hps)
    rw [← hpools, hps]
    simp [hall]
  | ok ps =>
    have hall : ∀ p ∈ r.pools, ∃ s, resolve pools .item r.id .affixPool p = .ok s :=
      forall_ok_iff_not_firstFailure.2 fun e' h => by
        rw [← hpools, hps] at h
        cases h
    rw [← hpools, hps, except_ok_bind, except_bind_eq_error_of_ok, mapM_bind_pure_eq_error_iff,
      List.map_id']
    · simp only [reduceCtorEq, false_or]
      exact ⟨fun h => ⟨hall, h⟩, And.right⟩
    · exact fun _ => ⟨_, rfl⟩

end Linking

/-! ## Loading records -/

section Loading

variable {ρ δ : Type} {store : Catalog → δ → Catalog × Nat} {k : Kind} {c : Catalog}
  {raws : List Value} {e : Fault}

/-- Loading that reads every record first and then links and registers them one at a time
reports the failure of the first record that cannot be read; when every record is read, it
reports the first defect of linking and registering. -/
theorem readThenLoad_eq_error_iff {read : Value → Except Fault ρ} {link : ρ → Except Fault δ}
    {rid : ρ → Int} :
    (do
      let records ← raws.mapM read
      records.foldlM (fun (acc : Catalog × Registry) r => do
        let d ← link r
        let (c, slot) := store acc.1 d
        pure (c, ← Catalog.register k acc.2 (rid r) slot)) (c, Registry.empty)) = .error e ↔
      FirstFailure read raws e ∨
        ∃ rs, raws.mapM read = .ok rs ∧
          FirstDefect k (fun r => (rid r, ·) <$> link r) [] rs e := by
  have hstep : (fun (acc : Catalog × Registry) r => do
      let d ← link r
      let (c, slot) := store acc.1 d
      pure (c, ← Catalog.register k acc.2 (rid r) slot)) =
      loadStep store k (fun r => (rid r, ·) <$> link r) := by
    funext acc r
    unfold loadStep
    dsimp only
    cases link r <;> rfl
  have hempty : ∀ j, (c, Registry.empty).2.contains j = true ↔ j ∈ ([] : List Int) := by
    simp [Registry.contains, Registry.empty]
  rw [hstep, ← mapM_eq_error_iff]
  cases hrs : raws.mapM read with
  | error e' => simp
  | ok rs =>
    rw [except_ok_bind, foldlM_loadStep_eq_error_iff hempty]
    simp

variable {room : Nat}

/-- Affixes are loaded one record at a time: each is read, stored and registered before the next
is read. -/
theorem Catalog.loadAffixes_eq_foldlM :
    c.loadAffixes room raws =
      raws.foldlM (loadStep Catalog.storeAffix .affix (AffixDef.ofValue (room - 3)))
        (c, Registry.empty) :=
  rfl

theorem Catalog.loadAffixes_eq_error_iff :
    c.loadAffixes room raws = .error e ↔
      FirstDefect .affix (AffixDef.ofValue (room - 3)) [] raws e := by
  rw [Catalog.loadAffixes_eq_foldlM]
  exact foldlM_loadStep_eq_error_iff (by simp [Registry.contains, Registry.empty])

theorem Catalog.loadPools_eq_error_iff {affixes : Registry} :
    c.loadPools room affixes raws = .error e ↔
      FirstFailure (WeightedRecord.ofValue (room - 2) .affixPool "affix_id") raws e ∨
        ∃ rs, raws.mapM (WeightedRecord.ofValue (room - 2) .affixPool "affix_id") = .ok rs ∧
          FirstDefect .affixPool (fun r => (r.id, ·) <$> r.linkPool affixes) [] rs e :=
  @readThenLoad_eq_error_iff WeightedRecord PoolDef Catalog.storePool .affixPool c raws e
    (WeightedRecord.ofValue (room - 2) .affixPool "affix_id") (fun r => r.linkPool affixes)
    (fun r => r.id)

theorem Catalog.loadItems_eq_error_iff {affixes pools : Registry} :
    c.loadItems room affixes pools raws = .error e ↔
      FirstFailure (ItemRecord.ofValue (room - 2)) raws e ∨
        ∃ rs, raws.mapM (ItemRecord.ofValue (room - 2)) = .ok rs ∧
          FirstDefect .item (fun r => (r.id, ·) <$> r.link affixes pools) [] rs e :=
  @readThenLoad_eq_error_iff ItemRecord ItemDef Catalog.storeItem .item c raws e
    (ItemRecord.ofValue (room - 2)) (fun r => r.link affixes pools) (fun r => r.id)

theorem Catalog.loadLootPools_eq_error_iff {items : Registry} :
    c.loadLootPools room items raws = .error e ↔
      FirstFailure (WeightedRecord.ofValue (room - 2) .lootPool "item_id") raws e ∨
        ∃ rs, raws.mapM (WeightedRecord.ofValue (room - 2) .lootPool "item_id") = .ok rs ∧
          FirstDefect .lootPool (fun r => (r.id, ·) <$> r.linkLootPool items) [] rs e :=
  @readThenLoad_eq_error_iff WeightedRecord LootPoolDef Catalog.storeLootPool .lootPool c raws e
    (WeightedRecord.ofValue (room - 2) .lootPool "item_id") (fun r => r.linkLootPool items)
    (fun r => r.id)

end Loading

/-! ## What loading reports -/

section Reporting

variable {c : Catalog} {room : Nat} {k : Kind} {raws : List Value} {e : Fault}

theorem Catalog.loadKind_eq_error_iff :
    c.loadKind room k raws = .error e ↔
      (match k with
        | .affix => c.loadAffixes room raws
        | .affixPool => c.loadPools room c.affixIds raws
        | .item => c.loadItems room c.affixIds c.poolIds raws
        | .lootPool => c.loadLootPools room c.itemIds raws) = .error e := by
  cases k <;> exact except_bind_eq_error_of_ok fun _ => ⟨_, rfl⟩

/-- The registries a reload takes are accepted when they are those its kind links against. -/
theorem Catalog.checkDependencies_dependencies (k : Kind) :
    Catalog.checkDependencies k ((Catalog.dependencies k).map some) = .ok () := by
  cases k <;> rfl

end Reporting

/-- Loading reports the first defect of the records, with any budget of calls. Affix records are
read and registered one at a time, so the first record that cannot be read or repeats an earlier
id is reported. Pool, item and loot pool records are all read first: the first record that cannot
be read is reported whatever the records before it hold; when all are read, the first record
whose references do not all resolve, or whose id repeats an earlier one, is reported, an
unresolved reference first. A record that cannot be read reports whatever its reader fails with:
a malformed record, or a failure that passes the reader, such as a value nested too deep to be
quoted in the message. Linking reports the first reference that does not resolve, naming the
record and the id, and an item's pools come before its fixed affixes. The registries a reload
takes are checked before any record is read, and when they are those of the kind, a reload of an
array loads its records. -/
theorem load_reports_first_defect (c : Catalog) (room : Nat) (raws : List Value) (e : Fault) :
    (c.loadKind room .affix raws = .error e ↔
      FirstDefect .affix (AffixDef.ofValue (room - 3)) [] raws e) ∧
    (c.loadKind room .affixPool raws = .error e ↔
      FirstFailure (WeightedRecord.ofValue (room - 2) .affixPool "affix_id") raws e ∨
        ∃ rs, raws.mapM (WeightedRecord.ofValue (room - 2) .affixPool "affix_id") = .ok rs ∧
          FirstDefect .affixPool (fun r => (r.id, ·) <$> r.linkPool c.affixIds) [] rs e) ∧
    (c.loadKind room .item raws = .error e ↔
      FirstFailure (ItemRecord.ofValue (room - 2)) raws e ∨
        ∃ rs, raws.mapM (ItemRecord.ofValue (room - 2)) = .ok rs ∧
          FirstDefect .item (fun r => (r.id, ·) <$> r.link c.affixIds c.poolIds) [] rs e) ∧
    (c.loadKind room .lootPool raws = .error e ↔
      FirstFailure (WeightedRecord.ofValue (room - 2) .lootPool "item_id") raws e ∨
        ∃ rs, raws.mapM (WeightedRecord.ofValue (room - 2) .lootPool "item_id") = .ok rs ∧
          FirstDefect .lootPool (fun r => (r.id, ·) <$> r.linkLootPool c.itemIds) [] rs e) ∧
    (∀ r : WeightedRecord, r.linkPool c.affixIds = .error e ↔
      FirstFailure (resolve c.affixIds .affixPool r.id .affix) (r.members.map (·.1)) e) ∧
    (∀ r : ItemRecord, r.link c.affixIds c.poolIds = .error e ↔
      FirstFailure (resolve c.poolIds .item r.id .affixPool) r.pools e ∨
        (∀ p ∈ r.pools, ∃ s, resolve c.poolIds .item r.id .affixPool p = .ok s) ∧
          FirstFailure (resolve c.affixIds .item r.id .affix) r.fixed e) ∧
    (∀ r : WeightedRecord, r.linkLootPool c.itemIds = .error e ↔
      FirstFailure (resolve c.itemIds .lootPool r.id .item) (r.members.map (·.1)) e) ∧
    (∀ (reg : Registry) owner ownerId target id,
      resolve reg owner ownerId target id = .error e ↔
        reg.find? id = none ∧ e = .load (.unknownReference owner ownerId target id)) ∧
    (∀ k deps (records : Value), Catalog.checkDependencies k deps = .error e →
      c.reload room k deps records = .error e) ∧
    (∀ k, c.reload room k ((Catalog.dependencies k).map some) (.arr raws) = c.loadKind room k raws) := by
  refine ⟨?_, ?_, ?_, ?_, fun r => WeightedRecord.linkPool_eq_error_iff,
    fun r => ItemRecord.link_eq_error_iff, fun r => WeightedRecord.linkLootPool_eq_error_iff,
    fun _ _ _ _ _ => resolve_eq_error_iff, fun k deps records hdeps => ?_, fun k => ?_⟩
  · rw [Catalog.loadKind_eq_error_iff]
    exact Catalog.loadAffixes_eq_error_iff
  · rw [Catalog.loadKind_eq_error_iff]
    exact Catalog.loadPools_eq_error_iff
  · rw [Catalog.loadKind_eq_error_iff]
    exact Catalog.loadItems_eq_error_iff
  · rw [Catalog.loadKind_eq_error_iff]
    exact Catalog.loadLootPools_eq_error_iff
  · unfold Catalog.reload
    rw [hdeps]
    rfl
  · unfold Catalog.reload
    rw [Catalog.checkDependencies_dependencies]
    rfl

/-- A pool record whose only member is an affix of id 7. -/
def poolRecordOfAffixSeven : Value :=
  Value.record [("id", .int 1),
    ("members", .arr [Value.record [("affix_id", .int 7), ("weight", .int 1)]])]

/-- A pool record without members. -/
def poolRecordWithoutMembers : Value := Value.record [("id", .int 2)]

/-- Loading a pool that refers to an affix that is not loaded, then a pool without members,
reports the second record as malformed: all records are read before any is linked. The first
record alone reports its unknown reference. -/
theorem malformed_pool_reported_before_unknown_reference :
    Catalog.empty.loadKind Catalog.requestRoom .affixPool
        [poolRecordOfAffixSeven, poolRecordWithoutMembers] =
        .error (.load (.malformed .affixPool (Text.Chars.ofString "2") .key
          (Text.Chars.ofString "'members'"))) ∧
      Catalog.empty.loadKind Catalog.requestRoom .affixPool [poolRecordOfAffixSeven] =
        .error (.load (.unknownReference .affixPool 1 .affix 7)) := by
  have hread : ∃ r, WeightedRecord.ofValue (Catalog.requestRoom - 2) .affixPool "affix_id"
      poolRecordOfAffixSeven = .ok r := ⟨_, rfl⟩
  have hmalformed : WeightedRecord.ofValue (Catalog.requestRoom - 2) .affixPool "affix_id"
      poolRecordWithoutMembers = .error (.load (.malformed .affixPool (Text.Chars.ofString "2")
        .key (Text.Chars.ofString "'members'"))) := by
    cbv
  refine ⟨(load_reports_first_defect _ _ _ _).2.1.2
    (.inl ⟨[poolRecordOfAffixSeven], poolRecordWithoutMembers, [], rfl, ?_, hmalformed⟩),
    (load_reports_first_defect _ _ _ _).2.1.2
      (.inr ⟨_, rfl, [], _, [], [], rfl, rfl, List.nodup_nil, by simp, .inl rfl⟩)⟩
  simpa using hread

/-- An affix record of id 1 without tiers whose placement is `v` wrapped in `n + 1` lists. -/
def nestedPlacementRecord (n : Nat) (v : Value) : Value :=
  Value.record [("id", .int 1), ("placement", Value.nest (n + 1) v), ("tiers", .record [])]

/-- An affix record whose placement is nested at least as deep as the calls left for quoting it
in its message cannot be loaded: quoting fails with the recursion failure, which no reader
expects, and loading reports it in place of the malformed record. With `room` calls left where
loading is asked for, the placement is quoted seven calls deeper. -/
theorem loadKind_nestedPlacement {room n : Nat} (h : room - 7 ≤ n + 1) (v : Value) :
    Catalog.empty.loadKind room .affix [nestedPlacementRecord n v] = .error Fault.reprTooDeep := by
  have hquote : (Value.nest (n + 1) v).literal (room - 3 - 1 - 3) = .error Fault.reprTooDeep :=
    literal_nest v (by omega)
  have hplace : Placement.ofValue (room - 3 - 1) (Value.nest (n + 1) v) =
      .error Fault.reprTooDeep := by
    simp only [Placement.ofValue, Value.enumOf, Value.nest, Value.string?]
    rw [← Value.nest, hquote]
    rfl
  -- the tiers and the id are read, and reading the placement fails
  have htiers : (nestedPlacementRecord n v).member "tiers" = .ok (.obj []) := by cbv
  have hid : (nestedPlacementRecord n v).member "id" = .ok (.int 1) := by cbv
  have hpl : (nestedPlacementRecord n v).member "placement" = .ok (Value.nest (n + 1) v) := by
    cbv
  have hmap : TierMap.ofValue (room - 3 - 1) (.obj []) = .ok TierMap.empty := by cbv
  have hint : (Value.int 1).toInt = .ok 1 := by cbv
  have hread : AffixDef.ofValue (room - 3) (nestedPlacementRecord n v) =
      .error Fault.reprTooDeep := by
    simp only [AffixDef.ofValue, htiers, hid, hpl, hmap, hint, except_ok_bind, hplace,
      except_error_bind]
    rfl
  simp only [Catalog.loadKind, Catalog.loadAffixes, List.foldlM_cons, hread]
  rfl

/-- The record of the request that loads an affix whose placement is the integer 1 wrapped in
990 lists: a request can hold it, as it nests 994 deep. Loading it with the calls that the records
of a request have fails with the recursion failure of quoting the placement, not with the
malformed-record failure that names it. -/
theorem deep_placement_escapes_load :
    Catalog.empty.loadKind Catalog.requestRoom .affix [nestedPlacementRecord 989 (.int 1)] =
      .error Fault.reprTooDeep :=
  loadKind_nestedPlacement (by decide) _

end Loot
