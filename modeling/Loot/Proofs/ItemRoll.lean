import Loot.Roll.Item
import Loot.Proofs.PoolDraw
import Mathlib.Data.List.Nodup

/-!
# Rolling an item from its pools

An item without fixed affixes draws a count and then draws that many times from its merged pool
members, each draw excluding the ids drawn before. Its affixes have distinct ids, each of a
drawable member, and are as many as the count unless the drawable members run out
(`rollItem_affixes_of_pools`). The draw loop keeps one invariant: the excluded ids are exactly the
ids drawn so far.
-/

namespace Loot

open Loot.Json Loot.Random

variable {c : Catalog} {s s' : Source}

/-! ## Merging the pools -/

theorem foldlM_merge_eq_ok :
    ∀ (pools : List (Ref .affixPool)) (acc ms : List (Ref .affix × Value)),
      pools.foldlM (fun acc p => do
          let slot ← c.require .affixPool (c.pool p).id
          pure (acc ++ (c.pool ⟨slot⟩).members)) acc = .ok ms ↔
        ∃ slots, pools.mapM (fun p => c.require .affixPool (c.pool p).id) = .ok slots ∧
          ms = acc ++ slots.flatMap fun slot => (c.pool ⟨slot⟩).members
  | [], acc, ms => by
    simp only [List.foldlM_nil, List.mapM_nil, except_pure_eq_ok]
    constructor
    · rintro rfl
      exact ⟨[], rfl, by simp⟩
    · rintro ⟨slots, rfl, rfl⟩
      simp
  | p :: pools, acc, ms => by
    rw [List.foldlM_cons]
    cases hp : c.require .affixPool (c.pool p).id with
    | error e =>
      simp only [except_error_bind, reduceCtorEq, false_iff, not_exists, not_and]
      intro slots hslots
      obtain ⟨y, -, hy, -⟩ := mapM_cons_eq_ok.1 hslots
      rw [hp] at hy
      cases hy
    | ok slot =>
      simp only [except_ok_bind, pure_bind]
      rw [foldlM_merge_eq_ok pools]
      constructor
      · rintro ⟨slots, hslots, rfl⟩
        exact ⟨slot :: slots, mapM_cons_eq_ok.2 ⟨slot, slots, hp, hslots, rfl⟩, by simp⟩
      · rintro ⟨slots, hslots, rfl⟩
        obtain ⟨y, ys, hy, hys, rfl⟩ := mapM_cons_eq_ok.1 hslots
        rw [hp] at hy
        cases hy
        exact ⟨ys, hys, by simp⟩

/-- Merging pools looks each pool up by its current id, in order, and appends the members of the
pools found: a pool listed twice contributes its members twice. -/
theorem mergedMembers_eq_ok {pools : List (Ref .affixPool)} {ms : List (Ref .affix × Value)} :
    mergedMembers c pools = .ok ms ↔
      ∃ slots, pools.mapM (fun p => c.require .affixPool (c.pool p).id) = .ok slots ∧
        ms = slots.flatMap fun slot => (c.pool ⟨slot⟩).members := by
  unfold mergedMembers
  rw [foldlM_merge_eq_ok]
  simp

/-- Each pool merged is a registered one. -/
theorem registered_of_mapM_require {pools : List (Ref .affixPool)} {slots : List Nat}
    (h : pools.mapM (fun p => c.require .affixPool (c.pool p).id) = .ok slots) :
    ∀ slot ∈ slots, ∃ key, (key, slot) ∈ c.poolIds.entries := by
  intro slot hslot
  obtain ⟨p, -, hp⟩ := exists_of_mapM_eq_ok h slot hslot
  obtain ⟨key, hmem, -⟩ := Catalog.mem_of_require_eq_ok hp
  exact ⟨key, hmem⟩

/-! ## The count -/

/-- A weighting given as pairs is taken apart into those pairs. -/
theorem mapM_pairOf_pairs (pairs : List (Value × Value)) :
    (pairs.map fun e => [e.1, e.2]).mapM Value.pairOf = .ok pairs := by
  induction pairs with
  | nil => rfl
  | cons e pairs ih =>
    rw [List.map_cons, List.mapM_cons, ih]
    rfl

/-- The count drawn from a weighting of pairs with integer weights is zero, drawn without using
the source, when the weights sum to zero, and otherwise the count of an entry of positive
weight. -/
theorem rollCount_ints_eq_ok {pairs : List (Value × Value)} {ws : List Int} {N : Value}
    (hws : IntWeights (pairs.map (·.2)) ws)
    (h : (rollCount (pairs.map fun e => [e.1, e.2])).run s = .ok N s') :
    (ws.sum = 0 ∧ N = .int 0 ∧ s' = s) ∨
      ∃ e ∈ pairs, N = e.1 ∧ ∃ w : Int, e.2.toNum? = some (.int w) ∧ 0 < w := by
  obtain ⟨entries, s₁, hread, hrest⟩ := run_bind_eq_ok.1 h
  obtain ⟨hentries, rfl⟩ := run_fromExcept_eq_ok.1 hread
  rw [mapM_pairOf_pairs] at hentries
  cases hentries
  obtain ⟨o, s₂, hdraw, hpick⟩ := run_bind_eq_ok.1 hrest
  obtain ⟨hnn, hdraw⟩ := weightedIndexOf_ints_eq_ok hws hdraw
  cases o with
  | none =>
    rcases weightedIndex_ints_eq_ok hnn hdraw with ⟨hz, -, rfl⟩ | ⟨-, r, j, -, -, hj, -⟩
    · obtain ⟨hN, rfl⟩ := run_pure_eq_ok.1 hpick
      exact .inl ⟨hz, hN.symm, rfl⟩
    · cases hj
  | some j =>
    obtain ⟨hj, hpos⟩ := weightedIndex_ints_pos hnn hdraw
    obtain ⟨hlen, hw⟩ := hws.toNum?_getElem hj
    rw [List.length_map] at hlen
    obtain ⟨hN, -⟩ := run_pure_eq_ok.1 hpick
    rw [List.getElem?_eq_getElem hlen] at hN
    refine .inr ⟨pairs[j], List.getElem_mem hlen, hN.symm, ws[j], ?_, hpos⟩
    simpa using hw

/-! ## Taking an item roll apart -/

/-- An item without fixed affixes takes its affixes from its pools and then draws its
identifier. -/
theorem rollItem_eq_ok_of_fixed_nil {r : Ref .item} {crit : ItemCriteria} {I : RolledItem}
    (hfixed : (c.item r).fixed = []) (h : (rollItem c r crit).run s = .ok I s') :
    I.item = r ∧ ∃ s₁, (rollFromPools c (c.item r).pools crit).run s = .ok I.affixes s₁ := by
  simp only [rollItem, hfixed, List.isEmpty_nil, if_true] at h
  obtain ⟨affixes, s₁, hpools, hrest⟩ := run_bind_eq_ok.1 h
  obtain ⟨g, s₂, -, hrest⟩ := run_bind_eq_ok.1 hrest
  obtain ⟨rfl, -⟩ := run_pure_eq_ok.1 hrest
  exact ⟨rfl, s₁, hpools⟩

/-- Rolling from pools draws the count, merges the pools, reads the count as a number of draws,
and draws that many times, starting with nothing drawn. -/
theorem rollFromPools_eq_ok {pools : List (Ref .affixPool)} {crit : ItemCriteria}
    {res : List RolledAffix} (h : (rollFromPools c pools crit).run s = .ok res s') :
    ∃ N s₁ ms n, (rollCount crit.weighting).run s = .ok N s₁ ∧ mergedMembers c pools = .ok ms ∧
      N.repeatCount = .ok n ∧ (drawAffixes c ms crit.affixCriteria n [] []).run s₁ = .ok res s' := by
  obtain ⟨N, s₁, hcount, hrest⟩ := run_bind_eq_ok.1 h
  obtain ⟨ms, s₂, hread, hrest⟩ := run_bind_eq_ok.1 hrest
  obtain ⟨hms, rfl⟩ := run_fromExcept_eq_ok.1 hread
  obtain ⟨n, s₃, hread, hrest⟩ := run_bind_eq_ok.1 hrest
  obtain ⟨hn, rfl⟩ := run_fromExcept_eq_ok.1 hread
  exact ⟨N, s₁, ms, n, hcount, hms, hn, hrest⟩

/-! ## The draw loop -/

/-- One turn of the draw loop: it needs base criteria `b`, and draws from the members under `b`
with the ids drawn so far disallowed besides. An affix it yields joins those drawn, with its id;
a draw that yields nothing is skipped. -/
theorem drawAffixes_succ_eq_ok {ms : List (Ref .affix × Value)} {base : Option AffixCriteria}
    {n : Nat} {drawn : List Value} {acc res : List RolledAffix}
    (h : (drawAffixes c ms base (n + 1) drawn acc).run s = .ok res s') :
    ∃ b, base = some b ∧ ∃ s₁,
      ((rollFromPool c ms (b.excluding drawn)).run s =
          .ok none s₁ ∧ (drawAffixes c ms base n drawn acc).run s₁ = .ok res s') ∨
      ∃ a, (rollFromPool c ms (b.excluding drawn)).run s =
          .ok (some a) s₁ ∧
        (drawAffixes c ms base n ((c.affix a.affix).id :: drawn) (a :: acc)).run s₁ = .ok res s' := by
  cases base with
  | none => simp [drawAffixes] at h
  | some b =>
    simp only [drawAffixes] at h
    obtain ⟨o, s₁, hroll, hrest⟩ := run_bind_eq_ok.1 h
    cases o with
    | none => exact ⟨b, rfl, s₁, .inl ⟨hroll, hrest⟩⟩
    | some a =>
      obtain ⟨u, s₂, hkey, hrest⟩ := run_bind_eq_ok.1 hrest
      obtain ⟨-, rfl⟩ := run_fromExcept_eq_ok.1 hkey
      exact ⟨b, rfl, s₁, .inr ⟨a, hroll, hrest⟩⟩

/-- Without base criteria the loop can only stop at once. -/
theorem drawAffixes_none_eq_ok {ms : List (Ref .affix × Value)} {n : Nat} {drawn : List Value}
    {acc res : List RolledAffix} (h : (drawAffixes c ms none n drawn acc).run s = .ok res s') :
    n = 0 ∧ res = acc.reverse := by
  cases n with
  | zero =>
    obtain ⟨hres, -⟩ := run_pure_eq_ok.1 h
    exact ⟨rfl, hres.symm⟩
  | succ n =>
    obtain ⟨b, hb, -⟩ := drawAffixes_succ_eq_ok h
    cases hb

/-- Each turn of the draw loop adds at most one affix, so `n` turns add at most `n`. -/
theorem drawAffixes_length_le {ms : List (Ref .affix × Value)} {base : Option AffixCriteria} :
    ∀ (n : Nat) (drawn : List Value) (acc : List RolledAffix) (s : Source)
      {res : List RolledAffix} {s' : Source},
      (drawAffixes c ms base n drawn acc).run s = .ok res s' → res.length ≤ n + acc.length := by
  intro n
  induction n with
  | zero =>
    intro drawn acc s res s' h
    obtain ⟨rfl, -⟩ := run_pure_eq_ok.1 h
    simp
  | succ n ih =>
    intro drawn acc s res s' h
    obtain ⟨b, -, s₁, ⟨-, hrest⟩ | ⟨a, -, hrest⟩⟩ := drawAffixes_succ_eq_ok h
    · have hlen := ih drawn acc s₁ hrest
      omega
    · have hlen := ih _ (a :: acc) s₁ hrest
      rw [List.length_cons] at hlen
      omega

/-- The affixes drawn so far under base criteria `b`: no two have the same id, and each has the
id of a member drawable under `b`. -/
structure DrawnAffixes (c : Catalog) (ms : List (Ref .affix × Value)) (b : AffixCriteria)
    (acc : List RolledAffix) : Prop where
  nodup : (acc.map fun a => (c.affix a.affix).id).Nodup
  drawable : ∀ a ∈ acc, ∃ m ∈ ms, c.Drawable b m ∧ (c.affix m.1).id.sameKey (c.affix a.affix).id

/-- Every member drawable under `b` has the id of one of the affixes `acc`. -/
def Catalog.AllDrawn (c : Catalog) (b : AffixCriteria) (ms : List (Ref .affix × Value))
    (acc : List RolledAffix) : Prop :=
  ∀ m ∈ ms, c.Drawable b m → ∃ a ∈ acc, (c.affix m.1).id.sameKey (c.affix a.affix).id

section Loop

variable {ms : List (Ref .affix × Value)} {b : AffixCriteria} {acc : List RolledAffix}

theorem DrawnAffixes.nil : DrawnAffixes c ms b [] := ⟨List.nodup_nil, by simp⟩

/-- A member drawable once ids are excluded was drawable before. -/
theorem drawable_of_excluding {drawn : List Value} {m : Ref .affix × Value}
    (h : c.Drawable (b.excluding drawn) m) :
    c.Drawable b m :=
  ⟨((AffixCriteria.admits_excluding_eq_ok_true b drawn).1 h.1).2.1, h.2⟩

/-- A draw that yields an affix keeps the invariant. The affix is of a drawable member whose id
the registry resolves to a key whose affix has that key for its id; that id was not excluded, so
it is none of the ids drawn before. -/
theorem DrawnAffixes.draw (hkeys : ∀ e ∈ c.affixIds.entries, (c.affix ⟨e.2⟩).id = .int e.1)
    (hw : ∀ m ∈ ms, ∀ x, m.2 ≠ .float x) (hinv : DrawnAffixes c ms b acc) {a : RolledAffix}
    (h : (rollFromPool c ms (b.excluding (acc.map fun a => (c.affix a.affix).id))).run s =
      .ok (some a) s') :
    DrawnAffixes c ms b (a :: acc) := by
  obtain ⟨m, hm, hdraw, hreq⟩ := rollFromPool_eq_some hw h
  obtain ⟨-, -, hfresh⟩ := (AffixCriteria.admits_excluding_eq_ok_true b _).1 hdraw.1
  obtain ⟨key, hmem, hsame⟩ := Catalog.mem_of_require_eq_ok hreq
  have hid : (c.affix a.affix).id = .int key := hkeys _ hmem
  have hnew : (c.affix a.affix).id ∉ acc.map fun a => (c.affix a.affix).id := by
    intro hin
    have hany : (acc.map fun a => (c.affix a.affix).id).any (c.affix m.1).id.sameKey = true :=
      List.any_eq_true.2 ⟨_, hin, by rw [hid]; exact hsame⟩
    rw [hfresh] at hany
    cases hany
  refine ⟨List.nodup_cons.2 ⟨hnew, hinv.nodup⟩, fun a' ha' => ?_⟩
  rcases List.mem_cons.1 ha' with rfl | ha'
  · exact ⟨m, hm, drawable_of_excluding hdraw, by rw [hid]; exact hsame⟩
  · exact hinv.drawable a' ha'

theorem Catalog.AllDrawn.append (h : c.AllDrawn b ms acc) (new : List RolledAffix) :
    c.AllDrawn b ms (new ++ acc) := by
  intro m hm hdm
  obtain ⟨a, ha, hsame⟩ := h m hm hdm
  exact ⟨a, List.mem_append_right new ha, hsame⟩

/-- When every drawable member resolves to an affix with an eligible tier, a draw that yields
nothing found every drawable member excluded: its id is among those drawn. -/
theorem allDrawn_of_rollFromPool_none (hw : ∀ m ∈ ms, ∀ x, m.2 ≠ .float x)
    (hres : ∀ m ∈ ms, c.Drawable b m → ∃ slot, c.require .affix (c.affix m.1).id = .ok slot ∧
      ∃ t ts, b.eligibleTiers (c.affix ⟨slot⟩).tiers = .ok (t :: ts))
    (h : (rollFromPool c ms (b.excluding (acc.map fun a => (c.affix a.affix).id))).run s =
      .ok none s') :
    c.AllDrawn b ms acc := by
  rcases rollFromPool_eq_none hw h with hnone | ⟨m, hm, hdm, hnull | ⟨slot, hslot, helig⟩⟩
  · -- no member is drawable with the drawn ids excluded, so each drawable one was excluded
    intro m hm hdm
    obtain ⟨slot, hslot, -⟩ := hres m hm hdm
    have hany : (acc.map fun a => (c.affix a.affix).id).any (c.affix m.1).id.sameKey = true := by
      rw [← Bool.not_eq_false]
      intro hfalse
      refine hnone m hm ⟨?_, hdm.2⟩
      exact (AffixCriteria.admits_excluding_eq_ok_true b _).2
        ⟨Catalog.checkKey_of_require_eq_ok hslot, hdm.1, hfalse⟩
    obtain ⟨X, hX, hsame⟩ := List.any_eq_true.1 hany
    obtain ⟨a, ha, rfl⟩ := List.mem_map.1 hX
    exact ⟨a, ha, hsame⟩
  · -- a drawable member resolves, so its id is not null
    obtain ⟨slot, hslot, -⟩ := hres m hm (drawable_of_excluding hdm)
    rw [hnull] at hslot
    exact absurd hslot Catalog.require_null_ne_ok
  · -- the affix it resolves to has an eligible tier, whatever ids are excluded
    obtain ⟨slot', hslot', t, ts, helig'⟩ := hres m hm (drawable_of_excluding hdm)
    rw [hslot] at hslot'
    cases hslot'
    rw [AffixCriteria.eligibleTiers_excluding, helig'] at helig
    cases helig

/-- The draw loop, from affixes `acc` drawn so far and their ids excluded, draws at most `n`
new affixes, keeps the invariant, and answers all affixes drawn in the order drawn. When every
drawable member resolves to an affix with an eligible tier, it draws exactly `n` or runs out of
drawable members. -/
theorem drawAffixes_spec (hkeys : ∀ e ∈ c.affixIds.entries, (c.affix ⟨e.2⟩).id = .int e.1)
    (hw : ∀ m ∈ ms, ∀ x, m.2 ≠ .float x) :
    ∀ (n : Nat) (acc : List RolledAffix) (s : Source) {res : List RolledAffix} {s' : Source},
      DrawnAffixes c ms b acc →
      (drawAffixes c ms (some b) n (acc.map fun a => (c.affix a.affix).id) acc).run s =
        .ok res s' →
      ∃ new : List RolledAffix, res = (new ++ acc).reverse ∧ DrawnAffixes c ms b (new ++ acc) ∧
        new.length ≤ n ∧
        ((∀ m ∈ ms, c.Drawable b m → ∃ slot, c.require .affix (c.affix m.1).id = .ok slot ∧
            ∃ t ts, b.eligibleTiers (c.affix ⟨slot⟩).tiers = .ok (t :: ts)) →
          new.length = n ∨ c.AllDrawn b ms (new ++ acc)) := by
  intro n
  induction n with
  | zero =>
    intro acc s res s' hinv h
    obtain ⟨hres, -⟩ := run_pure_eq_ok.1 h
    exact ⟨[], hres.symm, hinv, Nat.le_refl 0, fun _ => .inl rfl⟩
  | succ n ih =>
    intro acc s res s' hinv h
    obtain ⟨b', hb, s₁, ⟨hroll, hrest⟩ | ⟨a, hroll, hrest⟩⟩ := drawAffixes_succ_eq_ok h
    all_goals cases hb
    · -- the draw yielded nothing: nothing joins the drawn affixes
      obtain ⟨new, hres, hinv', hlen, hfull⟩ := ih acc s₁ hinv hrest
      refine ⟨new, hres, hinv', Nat.le_succ_of_le hlen, fun hres' => .inr ?_⟩
      exact (allDrawn_of_rollFromPool_none hw hres' hroll).append new
    · -- the draw yielded `a`, which joins the drawn affixes with its id
      obtain ⟨new, hres, hinv', hlen, hfull⟩ := ih (a :: acc) s₁ (hinv.draw hkeys hw hroll) hrest
      refine ⟨new ++ [a], by simpa using hres, by simpa using hinv', by simpa using hlen, ?_⟩
      intro hres'
      rcases hfull hres' with hlen' | hall
      · exact .inl (by simp [hlen'])
      · exact .inr (by simpa using hall)

end Loop

/-! ## Items rolled from pools -/

/-- What the affixes of an item rolled from the members `ms` with `n` draws satisfy, under the
criteria `crit`: no two have the same id; each has the id of a member drawable under the base
criteria; there are at most `n`; and when every drawable member resolves to an affix with an
eligible tier, there are exactly `n` or every drawable member's id is among them. -/
structure Catalog.PoolRoll (c : Catalog) (crit : ItemCriteria) (ms : List (Ref .affix × Value))
    (n : Nat) (affixes : List RolledAffix) : Prop where
  nodup : (affixes.map fun a => (c.affix a.affix).id).Nodup
  drawable : ∀ a ∈ affixes, ∃ b ∈ crit.affixCriteria, ∃ m ∈ ms,
    c.Drawable b m ∧ (c.affix m.1).id.sameKey (c.affix a.affix).id
  length_le : affixes.length ≤ n
  length_eq : ∀ b ∈ crit.affixCriteria,
    (∀ m ∈ ms, c.Drawable b m → ∃ slot, c.require .affix (c.affix m.1).id = .ok slot ∧
      ∃ t ts, b.eligibleTiers (c.affix ⟨slot⟩).tiers = .ok (t :: ts)) →
    affixes.length = n ∨ c.AllDrawn b ms affixes

/-- The affixes the draw loop answers from nothing drawn satisfy the item's description. -/
theorem poolRoll_of_drawAffixes {crit : ItemCriteria} {ms : List (Ref .affix × Value)} {n : Nat}
    {res : List RolledAffix}
    (hkeys : ∀ e ∈ c.affixIds.entries, (c.affix ⟨e.2⟩).id = .int e.1)
    (hw : ∀ m ∈ ms, ∀ x, m.2 ≠ .float x)
    (h : (drawAffixes c ms crit.affixCriteria n [] []).run s = .ok res s') :
    c.PoolRoll crit ms n res := by
  cases hbase : crit.affixCriteria with
  | none =>
    rw [hbase] at h
    obtain ⟨rfl, rfl⟩ := drawAffixes_none_eq_ok h
    exact ⟨List.nodup_nil, by simp, Nat.le_refl 0, fun _ _ _ => .inl rfl⟩
  | some b =>
    rw [hbase] at h
    obtain ⟨new, rfl, hinv, hlen, hfull⟩ := drawAffixes_spec hkeys hw n [] s DrawnAffixes.nil h
    rw [List.append_nil] at hinv hfull ⊢
    refine ⟨?_, ?_, ?_, ?_⟩
    · rw [List.map_reverse, List.nodup_reverse]
      exact hinv.nodup
    · intro a ha
      exact ⟨b, Option.mem_def.2 hbase, hinv.drawable a (List.mem_reverse.1 ha)⟩
    · rw [List.length_reverse]
      exact hlen
    · intro b' hb' hres
      rw [Option.mem_def, hbase, Option.some.injEq] at hb'
      subst hb'
      rcases hfull hres with hlen' | hall
      · exact .inl (by rw [List.length_reverse, hlen'])
      · refine .inr fun m hm hdm => ?_
        obtain ⟨a, ha, hsame⟩ := hall m hm hdm
        exact ⟨a, List.mem_reverse.2 ha, hsame⟩

/-- An item without fixed affixes, rolled with a count weighting of pairs whose weights are
integers, from a catalog whose affix registry maps each key to an affix of that id and whose
registered pools have no member weighted by a double. The count `N` drawn is zero when the count
weights sum to zero, and otherwise the count of an entry of positive weight; it is read as `n`
draws; the item's pools are looked up by their current ids, in order, and their members merged.
The item's affixes then are distinct, drawable and at most `n`, as `Catalog.PoolRoll` says. -/
theorem rollItem_affixes_of_pools {r : Ref .item} {crit : ItemCriteria}
    {pairs : List (Value × Value)} {ws : List Int} {I : RolledItem}
    (hfixed : (c.item r).fixed = [])
    (hweighting : crit.weighting = pairs.map fun e => [e.1, e.2])
    (hcounts : IntWeights (pairs.map (·.2)) ws)
    (hkeys : ∀ e ∈ c.affixIds.entries, (c.affix ⟨e.2⟩).id = .int e.1)
    (hweights : ∀ e ∈ c.poolIds.entries, ∀ m ∈ (c.pool ⟨e.2⟩).members, ∀ x, m.2 ≠ .float x)
    (h : (rollItem c r crit).run s = .ok I s') :
    ∃ N s₁ n slots, (rollCount crit.weighting).run s = .ok N s₁ ∧
      ((ws.sum = 0 ∧ N = .int 0) ∨
        ∃ e ∈ pairs, N = e.1 ∧ ∃ w : Int, e.2.toNum? = some (.int w) ∧ 0 < w) ∧
      N.repeatCount = .ok n ∧
      (c.item r).pools.mapM (fun p => c.require .affixPool (c.pool p).id) = .ok slots ∧
      c.PoolRoll crit (slots.flatMap fun slot => (c.pool ⟨slot⟩).members) n I.affixes := by
  obtain ⟨-, s₂, hpools⟩ := rollItem_eq_ok_of_fixed_nil hfixed h
  obtain ⟨N, s₁, ms, n, hcount, hms, hn, hdraw⟩ := rollFromPools_eq_ok hpools
  obtain ⟨slots, hslots, rfl⟩ := mergedMembers_eq_ok.1 hms
  have hN : (ws.sum = 0 ∧ N = .int 0) ∨
      ∃ e ∈ pairs, N = e.1 ∧ ∃ w : Int, e.2.toNum? = some (.int w) ∧ 0 < w := by
    rw [hweighting] at hcount
    rcases rollCount_ints_eq_ok hcounts hcount with ⟨hz, hN, -⟩ | hpos
    · exact .inl ⟨hz, hN⟩
    · exact .inr hpos
  -- the merged members are members of registered pools, so none is weighted by a double
  have hw : ∀ m ∈ slots.flatMap (fun slot => (c.pool ⟨slot⟩).members), ∀ x, m.2 ≠ .float x := by
    intro m hm
    obtain ⟨slot, hslot, hm⟩ := List.mem_flatMap.1 hm
    obtain ⟨key, hkey⟩ := registered_of_mapM_require hslots slot hslot
    exact hweights _ hkey m hm
  exact ⟨N, s₁, n, slots, hcount, hN, hn, hslots, poolRoll_of_drawAffixes hkeys hw hdraw⟩

/-- Two affixes of one tier without stats, ids one and two. -/
def sampleAffix (id : Int) (name : String) : AffixDef where
  id := .int id
  placement := .before
  name := .str (Text.Chars.ofString name)
  tiers := ⟨[{ number := 1, stats := [] }]⟩

/-- A pool holding the first affix twice and the second once, with the given weights. -/
def samplePool (w₁ w₂ w₃ : Value) : PoolDef where
  id := .int 1
  name := .str (Text.Chars.ofString "Prefixes")
  members := [(⟨0⟩, w₁), (⟨1⟩, w₂), (⟨0⟩, w₃)]

/-- An item without fixed affixes whose single pool is listed twice. -/
def sampleItem : ItemDef where
  id := .int 1
  classification := default
  name := .str (Text.Chars.ofString "Cap")
  pools := [⟨0⟩, ⟨0⟩]
  fixed := []

/-- The two sample affixes, the sample pool and the sample item, each registered under its id. -/
def samplePoolCatalog (w₁ w₂ w₃ : Value) : Catalog where
  affixes := #[sampleAffix 1 "Sturdy", sampleAffix 2 "Keen"]
  pools := #[samplePool w₁ w₂ w₃]
  items := #[sampleItem]
  affixIds := ⟨[(1, 0), (2, 1)]⟩
  poolIds := ⟨[(1, 0)]⟩
  itemIds := ⟨[(1, 0)]⟩

/-- Criteria that always draw the count `n`. -/
def sampleCountCriteria (n : Int) : ItemCriteria := { weighting := [[.int n, .int 1]] }

/-- Two draws from the sample pools, of weights three, one and two: the first roll lands on the
first member, and the second, with the first affix excluded, on the second affix. -/
theorem sample_item_pool_roll :
    ((samplePoolCatalog (.int 3) (.int 1) (.int 2)).item ⟨0⟩).fixed = [] ∧
    (sampleCountCriteria 2).weighting = [(.int 2, .int 1)].map (fun e => [e.1, e.2]) ∧
    IntWeights ([(Value.int 2, Value.int 1)].map (·.2)) [1] ∧
    (∀ e ∈ (samplePoolCatalog (.int 3) (.int 1) (.int 2)).affixIds.entries,
      ((samplePoolCatalog (.int 3) (.int 1) (.int 2)).affix ⟨e.2⟩).id = .int e.1) ∧
    (∀ e ∈ (samplePoolCatalog (.int 3) (.int 1) (.int 2)).poolIds.entries,
      ∀ m ∈ ((samplePoolCatalog (.int 3) (.int 1) (.int 2)).pool ⟨e.2⟩).members,
        ∀ x, m.2 ≠ .float x) ∧
    (rollItem (samplePoolCatalog (.int 3) (.int 1) (.int 2)) ⟨0⟩ (sampleCountCriteria 2)).run
        (.script (List.replicate 6 (.int 0)) 0) =
      .ok ⟨Text.Chars.ofString (guidText (markVersion4 0)), ⟨0⟩,
        [⟨⟨0⟩, 1, StatList.ofModifiers []⟩, ⟨⟨1⟩, 1, StatList.ofModifiers []⟩]⟩ (.script [] 6) ∧
    ∃ N s₁ n slots,
      (rollCount (sampleCountCriteria 2).weighting).run (.script (List.replicate 6 (.int 0)) 0) =
        .ok N s₁ ∧
      (([1] : List Int).sum = 0 ∧ N = .int 0 ∨ ∃ e ∈ [(Value.int 2, Value.int 1)], N = e.1 ∧
        ∃ w : Int, e.2.toNum? = some (.int w) ∧ 0 < w) ∧
      N.repeatCount = .ok n ∧
      ((samplePoolCatalog (.int 3) (.int 1) (.int 2)).item ⟨0⟩).pools.mapM
        (fun p => (samplePoolCatalog (.int 3) (.int 1) (.int 2)).require .affixPool
          ((samplePoolCatalog (.int 3) (.int 1) (.int 2)).pool p).id) = .ok slots ∧
      (samplePoolCatalog (.int 3) (.int 1) (.int 2)).PoolRoll (sampleCountCriteria 2)
        (slots.flatMap fun slot => ((samplePoolCatalog (.int 3) (.int 1) (.int 2)).pool ⟨slot⟩).members)
        n [⟨⟨0⟩, 1, StatList.ofModifiers []⟩, ⟨⟨1⟩, 1, StatList.ofModifiers []⟩] := by
  have hkeys : ∀ e ∈ (samplePoolCatalog (.int 3) (.int 1) (.int 2)).affixIds.entries,
      ((samplePoolCatalog (.int 3) (.int 1) (.int 2)).affix ⟨e.2⟩).id = .int e.1 := by
    intro e he
    simp only [samplePoolCatalog, List.mem_cons, List.not_mem_nil, or_false] at he
    rcases he with rfl | rfl <;> rfl
  have hweights : ∀ e ∈ (samplePoolCatalog (.int 3) (.int 1) (.int 2)).poolIds.entries,
      ∀ m ∈ ((samplePoolCatalog (.int 3) (.int 1) (.int 2)).pool ⟨e.2⟩).members,
        ∀ x, m.2 ≠ .float x := by
    intro e he m hm x
    simp only [samplePoolCatalog, List.mem_cons, List.not_mem_nil, or_false] at he
    subst he
    simp only [Catalog.pool, samplePoolCatalog, samplePool] at hm
    simp at hm
    rcases hm with rfl | rfl | rfl <;> simp
  have hrun : (rollItem (samplePoolCatalog (.int 3) (.int 1) (.int 2)) ⟨0⟩
      (sampleCountCriteria 2)).run (.script (List.replicate 6 (.int 0)) 0) =
      .ok ⟨Text.Chars.ofString (guidText (markVersion4 0)), ⟨0⟩,
        [⟨⟨0⟩, 1, StatList.ofModifiers []⟩, ⟨⟨1⟩, 1, StatList.ofModifiers []⟩]⟩ (.script [] 6) :=
    rfl
  have hweighting : (sampleCountCriteria 2).weighting =
      [(Value.int 2, Value.int 1)].map fun e => [e.1, e.2] := rfl
  exact ⟨rfl, rfl, intWeights_map_int [1], hkeys, hweights, hrun,
    rollItem_affixes_of_pools rfl hweighting (intWeights_map_int [1]) hkeys hweights hrun⟩

set_option maxRecDepth 4000 in
/-- A member weighted by a double can be drawn though its weight is zero. With the weights
`2⁵³ + 3`, the double zero and one, the running sum reaches the zero member as the double nearest
`2⁵³ + 3`, which is `2⁵³ + 4`: it exceeds the roll `2⁵³ + 3`, so the zero member is chosen, and
the item rolled has the second affix, whose only members have weight zero. -/
theorem rollItem_draws_zero_weight_member :
    ((samplePoolCatalog (.int 9007199254740995) (.float 0.0) (.int 1)).item ⟨0⟩).fixed = [] ∧
    (∀ e ∈ (samplePoolCatalog (.int 9007199254740995) (.float 0.0) (.int 1)).affixIds.entries,
      ((samplePoolCatalog (.int 9007199254740995) (.float 0.0) (.int 1)).affix ⟨e.2⟩).id =
        .int e.1) ∧
    (rollItem (samplePoolCatalog (.int 9007199254740995) (.float 0.0) (.int 1)) ⟨0⟩
        (sampleCountCriteria 1)).run (.script [.int 0, .int 9007199254740995, .int 0, .int 0] 0) =
      .ok ⟨Text.Chars.ofString (guidText (markVersion4 0)), ⟨0⟩,
        [⟨⟨1⟩, 1, StatList.ofModifiers []⟩]⟩ (.script [] 4) ∧
    ∀ m ∈ (samplePool (.int 9007199254740995) (.float 0.0) (.int 1)).members,
      ((samplePoolCatalog (.int 9007199254740995) (.float 0.0) (.int 1)).affix m.1).id = .int 2 →
        m.2 = .float 0.0 := by
  refine ⟨rfl, ?_, rfl, ?_⟩
  · intro e he
    simp only [samplePoolCatalog, List.mem_cons, List.not_mem_nil, or_false] at he
    rcases he with rfl | rfl <;> rfl
  · intro m hm hid
    simp only [samplePool, List.mem_cons, List.not_mem_nil, or_false] at hm
    rcases hm with rfl | rfl | rfl
    · cases hid
    · rfl
    · cases hid

end Loot
