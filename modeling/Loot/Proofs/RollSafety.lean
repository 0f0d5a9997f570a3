import Loot.Proofs.ItemRoll
import Loot.Proofs.Coherence
import Loot.Proofs.LootDrop
import Loot.Proofs.Failures
import Mathlib

/-!
# Rolls from a coherent catalog never miss

In a coherent catalog whose pools and loot pools weigh their members by non-negative integers, no
roll fails with a lookup that finds nothing or a refused negative weight, whatever the source hands
out and whatever the criteria (`rolls_never_miss`). A roll can still fail on its source, or on
criteria and stat ranges that cannot be compared, counted or rounded. The proof gives every function
a roll calls a `FailsOnly NoMiss` lemma, from the primitive draws up to `rollLoot`.
-/

namespace Loot

open Loot.Json Loot.Random Loot.Text

/-! ## The faults a roll must not give -/

namespace Fault

/-- The failure of looking up an id that a registry does not hold. -/
def IsNotFound : Fault → Prop
  | .notFound _ _ => True
  | _ => False

/-- The refusal of a negative weight by a weighted draw: a value failure whose message starts with
`Negative weight in `. -/
def IsNegativeWeight : Fault → Prop
  | .builtin .value m => (Chars.ofString "Negative weight in ").points <+: m.points
  | _ => False

/-- A fault that is no miss: neither a lookup that finds nothing nor a refused negative
weight. -/
def NoMiss (e : Fault) : Prop := ¬ e.IsNotFound ∧ ¬ e.IsNegativeWeight

@[simp]
theorem noMiss_builtin (cls : Builtin) (m : Chars) :
    (builtin cls m).NoMiss ↔
      ¬ (cls = .value ∧ (Chars.ofString "Negative weight in ").points <+: m.points) := by
  cases cls <;> simp [NoMiss, IsNotFound, IsNegativeWeight]

@[simp]
theorem noMiss_scriptNotInteger : scriptNotInteger.NoMiss := by
  simp [NoMiss, IsNotFound, IsNegativeWeight]

@[simp]
theorem noMiss_scriptExhausted (n : Nat) : (scriptExhausted n).NoMiss := by
  simp [NoMiss, IsNotFound, IsNegativeWeight]

@[simp]
theorem noMiss_type (m : String) : (type m).NoMiss := by
  simp [type, plain]

@[simp]
theorem noMiss_noAttribute (kindName member : String) : (noAttribute kindName member).NoMiss := by
  simp [noAttribute, plain]

@[simp]
theorem noMiss_intTooLarge : intTooLarge.NoMiss := by
  simp [intTooLarge, plain]

/-- A value failure is no refused negative weight when its message does not start with `N`. -/
theorem noMiss_value {m : String} (h : m.toList.head? ≠ some 'N') : (value m).NoMiss := by
  simp only [value, plain, noMiss_builtin, true_and]
  rintro ⟨t, ht⟩
  have hhead := congrArg List.head? ht
  simp only [Chars.ofString, List.head?_append, List.head?_map] at hhead
  have hN : "Negative weight in ".toList.head? = some 'N' := by decide
  rw [hN] at hhead
  cases hm : m.toList.head? with
  | none => simp [hm] at hhead
  | some c =>
    simp only [hm, Option.map_some, Option.some_or, Option.some.injEq,
      Text.CodePoint.char.injEq] at hhead
    exact h (hm.trans (congrArg some hhead.symm))

end Fault

open Fault

/-! ## Plain operations on values

Each plain operation on numbers and values fails, if at all, with a fault of its own: a kind
failure, a number out of range, or a value failure whose message names what could not be
converted. None of them looks anything up or checks a weight. -/

section Values

theorem noMiss_intToFloat (n : Int) : FailsOnly NoMiss (Num.intToFloat n) := by
  dsimp only [Num.intToFloat]
  split <;> simp

theorem noMiss_numToFloat (x : Num) : FailsOnly NoMiss x.toFloat := by
  cases x with
  | int n => exact noMiss_intToFloat n
  | float x => simp [Num.toFloat]

theorem noMiss_truncFloat (x : Float) : FailsOnly NoMiss (Num.truncFloat x) := by
  unfold Num.truncFloat
  split
  · exact (failsOnly_error_iff).2 (noMiss_value (by decide))
  · simp
  · simp

theorem noMiss_add (a b : Num) : FailsOnly NoMiss (a.add b) := by
  cases a <;> cases b <;> simp only [Num.add, failsOnly_ok_iff]
  · exact FailsOnly.bind (noMiss_intToFloat _) fun _ _ => FailsOnly.pure _
  · exact FailsOnly.bind (noMiss_intToFloat _) fun _ _ => FailsOnly.pure _

theorem noMiss_mul (a b : Num) : FailsOnly NoMiss (a.mul b) := by
  cases a <;> cases b <;> simp only [Num.mul, failsOnly_ok_iff]
  · exact FailsOnly.bind (noMiss_intToFloat _) fun _ _ => FailsOnly.pure _
  · exact FailsOnly.bind (noMiss_intToFloat _) fun _ _ => FailsOnly.pure _

theorem noMiss_scaleOf (p : Num) : FailsOnly NoMiss p.scaleOf := by
  cases p with
  | int p =>
    dsimp only [Num.scaleOf]
    split
    · simp
    · exact FailsOnly.map (noMiss_intToFloat _)
  | float p =>
    dsimp only [Num.scaleOf]
    split <;> simp

theorem noMiss_divide (x : Float) (d : Num) : FailsOnly NoMiss (Num.divide x d) := by
  unfold Num.divide
  refine FailsOnly.bind (noMiss_numToFloat d) fun y _ => ?_
  split <;> simp

/-- Rounding fails only where scaling, adding a half, truncating or dividing does. -/
theorem noMiss_roundTo (v places : Num) : FailsOnly NoMiss (v.roundTo places) := by
  unfold Num.roundTo
  refine FailsOnly.bind (noMiss_scaleOf places) fun scale _ => ?_
  refine FailsOnly.bind (noMiss_mul _ _) fun scaled _ => ?_
  refine FailsOnly.bind (FailsOnly.bind (noMiss_add _ _) fun n _ => noMiss_numToFloat n)
    fun lifted _ => ?_
  refine FailsOnly.bind (noMiss_truncFloat _) fun whole _ => ?_
  exact FailsOnly.bind (noMiss_intToFloat whole) fun mag _ => noMiss_divide _ scale

theorem noMiss_valueToFloat (v : Value) : FailsOnly NoMiss v.toFloat := by
  cases v with
  | int n => exact noMiss_intToFloat n
  | str t =>
    dsimp only [Value.toFloat]
    split
    · simp
    · exact (failsOnly_error_iff).2 (noMiss_value (by simp))
  | _ => simp [Value.toFloat]

theorem noMiss_compareFrom (op : Comparison) (n : Num) (v : Value) :
    FailsOnly NoMiss (v.compareFrom op n) := by
  unfold Value.compareFrom
  split <;> simp [Comparison.unordered]

theorem noMiss_checkKey (v : Value) : FailsOnly NoMiss v.checkKey := by
  unfold Value.checkKey
  split <;> simp

/-- Admitting an id fails only where asking a set about it does. -/
theorem noMiss_admits (crit : AffixCriteria) (X : Value) (p : Placement) :
    FailsOnly NoMiss (crit.admits X p) := by
  rcases crit with ⟨allowed, disallowed, placement, -, -⟩
  cases hk : X.checkKey with
  | error e =>
    -- the first set asked about fails with the id's own failure
    have he : e.NoMiss := noMiss_checkKey X e hk
    cases allowed <;> cases disallowed <;> cases placement <;>
      simp [AffixCriteria.admits, Value.memberOf, hk, he, apply_ite (FailsOnly NoMiss)]
  | ok u =>
    -- a key value is answered by every set, and then by the criteria
    cases allowed <;> cases disallowed <;> cases placement <;>
      simp [AffixCriteria.admits, Value.memberOf, hk, apply_ite (FailsOnly NoMiss)]

theorem noMiss_upTo (m : TierMap) (u : Value) : FailsOnly NoMiss (m.upTo u) :=
  FailsOnly.filterM fun _ _ => noMiss_compareFrom _ _ u

/-- Choosing the eligible tiers fails only where comparing a tier with a bound does. -/
theorem noMiss_eligibleTiers (crit : AffixCriteria) (m : TierMap) :
    FailsOnly NoMiss (crit.eligibleTiers m) := by
  unfold AffixCriteria.eligibleTiers
  dsimp only
  -- the tiers under the maximum tier are then filtered by level
  split
  · exact FailsOnly.bind (FailsOnly.pure _) fun _ _ =>
      FailsOnly.filterM fun _ _ => noMiss_compareFrom _ _ _
  · exact FailsOnly.bind (noMiss_upTo m _) fun _ _ =>
      FailsOnly.filterM fun _ _ => noMiss_compareFrom _ _ _

theorem noMiss_pairOf (xs : List Value) : FailsOnly NoMiss (Value.pairOf xs) := by
  unfold Value.pairOf
  split
  · simp
  · split <;> exact failsOnly_error_iff.2 (noMiss_value (by simp))

theorem noMiss_repeatCount (v : Value) : FailsOnly NoMiss v.repeatCount := by
  cases v <;> simp [Value.repeatCount]

end Values

namespace Random

/-! ## The primitive draws

A primitive draw fails only on its source: a script that has run out, or a script value that
is not what the request needs. -/

section Primitives

variable {s s' : Source} {e : Fault}

/-- Bits fail only on a script value that is no integer or on a script that has run out. -/
theorem bits_fault {k : Nat} (h : (bits k).run s = .error e s') :
    e = .scriptNotInteger ∨ ∃ n, e = .scriptExhausted n := by
  unfold bits at h
  rcases s with t | ⟨_ | ⟨v, rest⟩, used⟩
  · cases h
  · cases h
    exact .inr ⟨used, rfl⟩
  · cases v <;> cases h <;> exact .inl rfl

/-- A double from the unit interval fails on a script that has run out, or with the failure of
reading the script value as a double. -/
theorem unit_fault (h : unit.run s = .error e s') :
    (∃ n, e = .scriptExhausted n) ∨ ∃ v : Value, v.toFloat = .error e := by
  unfold unit at h
  rcases s with t | ⟨_ | ⟨v, rest⟩, used⟩
  · cases h
  · cases h
    exact .inl ⟨used, rfl⟩
  · refine .inr ⟨v, ?_⟩
    -- run the script branch up to the reading of `v`
    dsimp only [EStateM.run, bind, EStateM.bind, get, getThe, MonadStateOf.get, EStateM.get, set,
      EStateM.set, MonadStateOf.set] at h
    cases hv : v.toFloat with
    | ok x => rw [hv] at h; cases h
    | error e' => rw [hv] at h; cases h; rfl

theorem noMiss_bits (k : Nat) : Draw.FailsOnly NoMiss (bits k) := by
  intro s e s' h
  rcases bits_fault h with rfl | ⟨n, rfl⟩ <;> simp

theorem noMiss_unit : Draw.FailsOnly NoMiss unit := by
  intro s e s' h
  rcases unit_fault h with ⟨n, rfl⟩ | ⟨v, hv⟩
  · simp
  · exact noMiss_valueToFloat v e hv

theorem noMiss_belowTries (n k : Nat) :
    ∀ fuel, Draw.FailsOnly NoMiss (belowTries n k fuel)
  | 0 => Draw.FailsOnly.bind (noMiss_bits k) fun _ _ _ _ => Draw.FailsOnly.pure _
  | fuel + 1 => Draw.FailsOnly.bind (noMiss_bits k) fun _ r _ _ => by
    split
    · exact Draw.FailsOnly.pure r
    · exact noMiss_belowTries n k fuel

theorem noMiss_below (n : Nat) : Draw.FailsOnly NoMiss (below n) :=
  Draw.FailsOnly.bind (fun _ _ _ h => by cases h) fun _ _ _ _ => noMiss_belowTries _ _ _

theorem noMiss_pick {α : Type} (xs : List α) : Draw.FailsOnly NoMiss (pick xs) := by
  unfold pick
  split
  · exact Draw.FailsOnly.pure none
  · exact Draw.FailsOnly.map (noMiss_below _)

theorem noMiss_uniform (a b : Float) : Draw.FailsOnly NoMiss (uniform a b) :=
  Draw.FailsOnly.map noMiss_unit

theorem noMiss_guid : Draw.FailsOnly NoMiss guid :=
  Draw.FailsOnly.map (noMiss_bits 128)

end Primitives

/-! ## Weighted draws over non-negative integers -/

/-- The running sums of integer weights never fail. -/
theorem firstAbove_ints_never_fails {Q : Fault → Prop} (roll : Nat) :
    ∀ (ws : List Int) (a : Int) (i : Nat),
      Loot.FailsOnly Q (firstAbove roll (ws.map .int) (.int a) i)
  | [], _, _ => (failsOnly_ok_iff _).2 trivial
  | w :: ws, a, i => by
    rw [List.map_cons, firstAbove_int_cons]
    split
    · simp
    · exact firstAbove_ints_never_fails roll ws (a + w) (i + 1)

/-- A weighted draw over non-negative integers fails only where its roll does. -/
theorem noMiss_weightedIndex_ints {ws : List Int} (hnn : ∀ w ∈ ws, 0 ≤ w) :
    Draw.FailsOnly NoMiss (weightedIndex (ws.map .int)) := by
  by_cases hz : ws.sum = 0
  · intro s e s' h
    rw [weightedIndex_ints_of_sum_eq_zero hnn hz] at h
    cases h
  · have hpos : 0 < ws.sum := lt_of_le_of_ne (List.sum_nonneg hnn) (Ne.symm hz)
    rw [weightedIndex_ints_of_sum_pos hnn hpos]
    exact Draw.FailsOnly.bind (noMiss_below _) fun _ r _ _ =>
      Draw.FailsOnly.fromExcept (firstAbove_ints_never_fails r ws 0 0)

end Random

namespace Json.Value

/-- A weight that stands for a non-negative integer: a non-negative integer, or a boolean, which
counts as one or zero. -/
def NonnegInt (v : Value) : Prop := ∃ w : Int, v.toNum? = some (.int w) ∧ 0 ≤ w

@[simp]
theorem nonnegInt_int_iff {k : Int} : (Value.int k).NonnegInt ↔ 0 ≤ k := by
  simp [NonnegInt, toNum?]

theorem NonnegInt.not_float {v : Value} (h : v.NonnegInt) (x : Float) : v ≠ .float x := by
  rintro rfl
  obtain ⟨w, hw, -⟩ := h
  cases hw

end Json.Value

/-- Weights that each stand for a non-negative integer stand for a list of them. -/
theorem exists_intWeights_of_nonnegInt :
    ∀ {vs : List Value}, (∀ v ∈ vs, v.NonnegInt) → ∃ ws, IntWeights vs ws ∧ ∀ w ∈ ws, 0 ≤ w
  | [], _ => ⟨[], intWeights_nil_iff.2 rfl, by simp⟩
  | v :: vs, h => by
    obtain ⟨w, hw, hnn⟩ := h v List.mem_cons_self
    obtain ⟨ws, hws, hwsnn⟩ := exists_intWeights_of_nonnegInt fun v' hv' =>
      h v' (List.mem_cons_of_mem v hv')
    refine ⟨w :: ws, intWeights_cons_iff.2 ⟨w, ws, rfl, hw, hws⟩, ?_⟩
    rintro x (_ | ⟨_, hx⟩)
    · exact hnn
    · exact hwsnn x hx

/-- A weighted draw over weights that stand for non-negative integers fails only where its roll
does. -/
theorem noMiss_weightedIndexOf {vs : List Value} (h : ∀ v ∈ vs, v.NonnegInt) :
    Draw.FailsOnly NoMiss (weightedIndexOf vs) := by
  obtain ⟨ws, hws, hnn⟩ := exists_intWeights_of_nonnegInt h
  rw [weightedIndexOf_ints hws hnn]
  exact noMiss_weightedIndex_ints hnn

/-! ## Rolling affixes -/

section Affixes

variable {c : Catalog} {ms : List (Ref .affix × Value)}

theorem noMiss_rollStats (places : Int) (ranges : List StatRange) :
    Draw.FailsOnly NoMiss (rollStats places ranges) :=
  Draw.FailsOnly.mapM fun _ _ => Draw.FailsOnly.bind (noMiss_uniform _ _) fun _ x _ _ => by
    split
    · exact Draw.FailsOnly.pure _
    · next e he => exact Draw.FailsOnly.throw (noMiss_roundTo _ _ e he)

/-- Rolling an affix looks nothing up and draws no weight: it fails only where its tier bounds,
its source or its rounding does. -/
theorem noMiss_rollAffix (c : Catalog) (r : Ref .affix) (crit : AffixCriteria) :
    Draw.FailsOnly NoMiss (rollAffix c r crit) := by
  unfold rollAffix
  refine Draw.FailsOnly.bind (Draw.FailsOnly.fromExcept (noMiss_eligibleTiers _ _))
    fun _ tiers _ _ => ?_
  refine Draw.FailsOnly.bind (noMiss_pick tiers) fun _ o _ _ => ?_
  cases o with
  | none => exact Draw.FailsOnly.pure none
  | some t =>
    exact Draw.FailsOnly.bind (noMiss_rollStats _ _) fun _ _ _ _ => Draw.FailsOnly.pure _

theorem noMiss_admitted (c : Catalog) (ms : List (Ref .affix × Value)) (crit : AffixCriteria) :
    FailsOnly NoMiss (admitted c ms crit) :=
  FailsOnly.filterMapM fun _ _ => FailsOnly.bind (noMiss_admits _ _ _) fun b _ => by
    cases b <;> simp

/-- Choosing an affix id from members weighed by non-negative integers fails only where the
criteria or the roll does: the weights of the admitted members are member weights. -/
theorem noMiss_chooseAffixId (hw : ∀ m ∈ ms, m.2.NonnegInt) (crit : AffixCriteria) :
    Draw.FailsOnly NoMiss (chooseAffixId c ms crit) := by
  unfold chooseAffixId
  refine Draw.FailsOnly.bind (Draw.FailsOnly.fromExcept (noMiss_admitted c ms crit))
    fun _ cands _ hc => ?_
  have hcw : ∀ v ∈ cands.map (·.2), v.NonnegInt := by
    intro v hv
    obtain ⟨x, hx, rfl⟩ := List.mem_map.1 hv
    obtain ⟨m, hm, -, rfl⟩ := mem_admitted (run_fromExcept_eq_ok.1 hc).1 hx
    exact hw m hm
  refine Draw.FailsOnly.bind (noMiss_weightedIndexOf hcw) fun _ o _ _ => ?_
  cases o <;> exact Draw.FailsOnly.pure _

/-- A draw from members weighed by non-negative integers, each of which is found by its affix's
current id, never misses: the id chosen is the current id of a member. -/
theorem noMiss_rollFromPool (hw : ∀ m ∈ ms, m.2.NonnegInt)
    (hfound : ∀ m ∈ ms, ∃ slot, c.require .affix (c.affix m.1).id = .ok slot)
    (crit : AffixCriteria) : Draw.FailsOnly NoMiss (rollFromPool c ms crit) := by
  unfold rollFromPool
  refine Draw.FailsOnly.bind (noMiss_chooseAffixId hw crit) fun _ o _ ho => ?_
  split
  · exact Draw.FailsOnly.pure none
  · exact Draw.FailsOnly.pure none
  · next X _ _ =>
    obtain ⟨m, hm, -, rfl⟩ := chooseAffixId_eq_some (fun m hm => (hw m hm).not_float) ho
    obtain ⟨slot, hslot⟩ := hfound m hm
    refine Draw.FailsOnly.bind (Draw.FailsOnly.fromExcept ?_) fun _ _ _ _ => noMiss_rollAffix _ _ _
    rw [hslot]
    simp

/-- Drawing affixes one after another never misses, whatever the base criteria and the ids
drawn before. -/
theorem noMiss_drawAffixes (hw : ∀ m ∈ ms, m.2.NonnegInt)
    (hfound : ∀ m ∈ ms, ∃ slot, c.require .affix (c.affix m.1).id = .ok slot)
    (base : Option AffixCriteria) :
    ∀ n drawn acc, Draw.FailsOnly NoMiss (drawAffixes c ms base n drawn acc)
  | 0, _, _ => Draw.FailsOnly.pure _
  | n + 1, drawn, acc => by
    unfold drawAffixes
    cases base with
    | none => exact Draw.FailsOnly.throw (noMiss_noAttribute _ _)
    | some b =>
      refine Draw.FailsOnly.bind (noMiss_rollFromPool hw hfound _) fun _ o _ _ => ?_
      cases o with
      | none => exact noMiss_drawAffixes hw hfound _ n drawn acc
      | some a =>
        exact Draw.FailsOnly.bind (Draw.FailsOnly.fromExcept (noMiss_checkKey _)) fun _ _ _ _ =>
          noMiss_drawAffixes hw hfound _ n _ _

end Affixes

/-! ## Lookups of a coherent catalog -/

namespace Catalog

/-- Every registered pool and loot pool weighs its members by non-negative integers. -/
structure NonnegWeights (c : Catalog) : Prop where
  pools : ∀ e ∈ c.poolIds.entries, ∀ m ∈ (c.pool ⟨e.2⟩).members, m.2.NonnegInt
  lootPools : ∀ e ∈ c.lootPoolIds.entries, ∀ m ∈ (c.lootPool ⟨e.2⟩).members, m.2.NonnegInt

variable {c : Catalog} {key : Int} {slot : Nat}

/-- A member of a registered pool is found by its affix's current id. -/
theorem Coherent.pool_member_found (hc : c.Coherent) (hreg : (key, slot) ∈ c.poolIds.entries)
    {m : Ref .affix × Value} (hm : m ∈ (c.pool ⟨slot⟩).members) :
    c.require .affix (c.affix m.1).id = .ok m.1.slot :=
  hc.refs .affixPool (key, slot) hreg (.affix, m.1.slot) (List.mem_map.2 ⟨m, hm, rfl⟩)

/-- A pool of a registered item is found by its current id. -/
theorem Coherent.item_pool_found (hc : c.Coherent) (hreg : (key, slot) ∈ c.itemIds.entries)
    {p : Ref .affixPool} (hp : p ∈ (c.item ⟨slot⟩).pools) :
    c.require .affixPool (c.pool p).id = .ok p.slot :=
  hc.refs .item (key, slot) hreg (.affixPool, p.slot)
    (List.mem_append_left _ (List.mem_map.2 ⟨p, hp, rfl⟩))

/-- A member of a registered loot pool is found by its item's current id. -/
theorem Coherent.loot_member_found (hc : c.Coherent) (hreg : (key, slot) ∈ c.lootPoolIds.entries)
    {m : Ref .item × Value} (hm : m ∈ (c.lootPool ⟨slot⟩).members) :
    c.require .item (c.item m.1).id = .ok m.1.slot :=
  hc.refs .lootPool (key, slot) hreg (.item, m.1.slot) (List.mem_map.2 ⟨m, hm, rfl⟩)

end Catalog

theorem exists_mapM_eq_ok {α β : Type} {f : α → Except Fault β} :
    ∀ {xs : List α}, (∀ x ∈ xs, ∃ y, f x = .ok y) → ∃ ys, xs.mapM f = .ok ys
  | [], _ => ⟨[], rfl⟩
  | x :: xs, h => by
    obtain ⟨y, hy⟩ := h x List.mem_cons_self
    obtain ⟨ys, hys⟩ := exists_mapM_eq_ok fun x' hx' => h x' (List.mem_cons_of_mem x hx')
    exact ⟨y :: ys, mapM_cons_eq_ok.2 ⟨y, ys, hy, hys, rfl⟩⟩

/-- The pools of a registered item of a coherent catalog merge into members of registered pools,
each weighed by a non-negative integer and found by its affix's current id. -/
theorem Catalog.Coherent.mergedMembers_found {c : Catalog} (hc : c.Coherent) (hw : c.NonnegWeights)
    {key : Int} {slot : Nat} (hreg : (key, slot) ∈ c.itemIds.entries) :
    ∃ ms, mergedMembers c (c.item ⟨slot⟩).pools = .ok ms ∧ (∀ m ∈ ms, m.2.NonnegInt) ∧
      ∀ m ∈ ms, ∃ slot', c.require .affix (c.affix m.1).id = .ok slot' := by
  obtain ⟨slots, hslots⟩ := exists_mapM_eq_ok fun p hp => ⟨_, hc.item_pool_found hreg hp⟩
  refine ⟨_, mergedMembers_eq_ok.2 ⟨slots, hslots, rfl⟩, ?_, ?_⟩
  · intro m hm
    obtain ⟨slot', hslot', hm'⟩ := List.mem_flatMap.1 hm
    obtain ⟨key', hpool⟩ := registered_of_mapM_require hslots slot' hslot'
    exact hw.pools (key', slot') hpool m hm'
  · intro m hm
    obtain ⟨slot', hslot', hm'⟩ := List.mem_flatMap.1 hm
    obtain ⟨key', hpool⟩ := registered_of_mapM_require hslots slot' hslot'
    exact ⟨_, hc.pool_member_found hpool hm'⟩

/-! ## Rolling items and drops -/

namespace Json.Value

/-- Taking a list apart as a pair succeeds only for a list of two. -/
theorem pairOf_eq_ok {xs : List Value} {p : Value × Value} (h : Value.pairOf xs = .ok p) :
    xs = [p.1, p.2] := by
  unfold Value.pairOf at h
  split at h
  · cases h
    rfl
  · split at h <;> cases h

end Json.Value

/-- A count weighting weighs by non-negative integers: the weight of every entry that is a pair
stands for a non-negative integer. -/
def NonnegCountWeights (weighting : List (List Value)) : Prop :=
  ∀ entry ∈ weighting, ∀ n w, entry = [n, w] → w.NonnegInt

theorem defaultWeighting_nonneg : NonnegCountWeights defaultWeighting := by
  simp [NonnegCountWeights, defaultWeighting, Value.NonnegInt, Value.toNum?]

section Items

variable {c : Catalog}

/-- Drawing an affix count by non-negative integer weights fails only where taking an entry apart
or the roll does. -/
theorem noMiss_rollCount {weighting : List (List Value)} (hw : NonnegCountWeights weighting) :
    Draw.FailsOnly NoMiss (rollCount weighting) := by
  unfold rollCount
  refine Draw.FailsOnly.bind
    (Draw.FailsOnly.fromExcept (FailsOnly.mapM fun xs _ => noMiss_pairOf xs))
    fun _ entries _ he => ?_
  have hew : ∀ v ∈ entries.map (·.2), v.NonnegInt := by
    intro v hv
    obtain ⟨p, hp, rfl⟩ := List.mem_map.1 hv
    obtain ⟨xs, hxs, hpair⟩ := exists_of_mapM_eq_ok (run_fromExcept_eq_ok.1 he).1 p hp
    exact hw xs hxs p.1 p.2 (Value.pairOf_eq_ok hpair)
  refine Draw.FailsOnly.bind (noMiss_weightedIndexOf hew) fun _ o _ _ => ?_
  cases o <;> exact Draw.FailsOnly.pure _

theorem noMiss_rollFixed (c : Catalog) (fixed : List (Ref .affix)) (crit : Option AffixCriteria) :
    Draw.FailsOnly NoMiss (rollFixed c fixed crit) :=
  Draw.FailsOnly.bind (Draw.FailsOnly.mapM fun _ _ => noMiss_rollAffix _ _ _) fun _ _ _ _ =>
    Draw.FailsOnly.pure _

/-- Rolling a registered item of a coherent catalog never misses: its pools are found, and so is
each affix drawn from their members. -/
theorem noMiss_rollItem (hc : c.Coherent) (hw : c.NonnegWeights) {r : Ref .item}
    (hreg : c.Registered .item r.slot) {crit : ItemCriteria}
    (hcount : NonnegCountWeights crit.weighting) :
    Draw.FailsOnly NoMiss (rollItem c r crit) := by
  obtain ⟨key, hkey⟩ := hreg
  obtain ⟨ms, hms, hmsw, hmsfound⟩ := hc.mergedMembers_found hw hkey
  have hpools : Draw.FailsOnly NoMiss (rollFromPools c (c.item ⟨r.slot⟩).pools crit) := by
    unfold rollFromPools
    refine Draw.FailsOnly.bind (noMiss_rollCount hcount) fun _ n _ _ => ?_
    refine Draw.FailsOnly.bind (Draw.FailsOnly.fromExcept (by rw [hms]; simp))
      fun _ ms' _ hms' => ?_
    obtain rfl := eq_of_run_fromExcept hms hms'
    exact Draw.FailsOnly.bind (Draw.FailsOnly.fromExcept (noMiss_repeatCount n)) fun _ k _ _ =>
      noMiss_drawAffixes hmsw hmsfound _ k [] []
  unfold rollItem
  dsimp only
  -- either way of rolling the affixes is followed by the identifier
  split
  · exact Draw.FailsOnly.bind hpools fun _ _ _ _ =>
      Draw.FailsOnly.bind noMiss_guid fun _ _ _ _ => Draw.FailsOnly.pure _
  · exact Draw.FailsOnly.bind (noMiss_rollFixed _ _ _) fun _ _ _ _ =>
      Draw.FailsOnly.bind noMiss_guid fun _ _ _ _ => Draw.FailsOnly.pure _

/-- The id a loot pool chooses is the current id of one of its members. -/
theorem chooseItemId_eq_some {d : LootPoolDef} {s s' : Source} {X : Value}
    (h : (chooseItemId c d).run s = .ok (some X) s') : ∃ m ∈ d.members, X = (c.item m.1).id := by
  obtain ⟨o, s₁, -, hrest⟩ := run_bind_eq_ok.1 h
  cases o with
  | none => exact absurd (run_pure_eq_ok.1 hrest).1 (by simp)
  | some i =>
    have hX := (run_pure_eq_ok.1 hrest).1
    obtain ⟨m, hm, rfl⟩ := Option.map_eq_some_iff.1 hX
    exact ⟨m, List.mem_of_getElem? hm, rfl⟩

/-- A drop from a registered loot pool of a coherent catalog never misses: the item chosen is
found by its current id, and rolling it does not miss either. -/
theorem noMiss_rollLoot (hc : c.Coherent) (hw : c.NonnegWeights) {slot : Nat}
    (hreg : c.Registered .lootPool slot) :
    Draw.FailsOnly NoMiss (rollLoot c (c.lootPool ⟨slot⟩)) := by
  obtain ⟨key, hkey⟩ := hreg
  unfold rollLoot
  have hchoose : Draw.FailsOnly NoMiss (chooseItemId c (c.lootPool ⟨slot⟩)) := by
    refine Draw.FailsOnly.bind (noMiss_weightedIndexOf ?_) fun _ o _ _ => ?_
    · intro v hv
      obtain ⟨m, hm, rfl⟩ := List.mem_map.1 hv
      exact hw.lootPools (key, slot) hkey m hm
    · cases o <;> exact Draw.FailsOnly.pure _
  refine Draw.FailsOnly.bind hchoose fun _ o _ ho => ?_
  split
  · exact Draw.FailsOnly.pure none
  · exact Draw.FailsOnly.pure none
  · next X _ _ =>
    obtain ⟨m, hm, rfl⟩ := chooseItemId_eq_some ho
    have hfound := hc.loot_member_found hkey hm
    refine Draw.FailsOnly.bind (Draw.FailsOnly.fromExcept (by rw [hfound]; simp))
      fun _ slot' _ hs => ?_
    obtain rfl := eq_of_run_fromExcept hfound hs
    have hitem : c.Registered .item m.1.slot :=
      hc.registered_ref hkey (r := (.item, m.1.slot)) (List.mem_map.2 ⟨m, hm, rfl⟩)
    exact Draw.FailsOnly.map (noMiss_rollItem hc hw hitem defaultWeighting_nonneg)

end Items

/-! ## No roll misses -/

/-- In a coherent catalog whose pools and loot pools weigh their members by non-negative integers,
every lookup a roll makes succeeds, and no roll fails with a lookup that finds nothing or a
refused negative weight, whatever the source:

* a member of a registered loot pool is found by its item's current id, and a drop from the pool
  never misses;
* a pool of a registered item is found by its current id, and rolling the item never misses, with
  any criteria whose count weighting weighs by non-negative integers;
* a member of a registered pool is found by its affix's current id, and a draw from the pool never
  misses, with any criteria. -/
theorem rolls_never_miss {c : Catalog} (hc : c.Coherent) (hw : c.NonnegWeights) :
    (∀ slot, c.Registered .lootPool slot →
      (∀ m ∈ (c.lootPool ⟨slot⟩).members, c.require .item (c.item m.1).id = .ok m.1.slot) ∧
      ∀ s e s', (rollLoot c (c.lootPool ⟨slot⟩)).run s = .error e s' →
        ¬ e.IsNotFound ∧ ¬ e.IsNegativeWeight) ∧
    (∀ slot, c.Registered .item slot →
      (∀ p ∈ (c.item ⟨slot⟩).pools, c.require .affixPool (c.pool p).id = .ok p.slot) ∧
      ∀ crit : ItemCriteria, NonnegCountWeights crit.weighting →
        ∀ s e s', (rollItem c ⟨slot⟩ crit).run s = .error e s' →
          ¬ e.IsNotFound ∧ ¬ e.IsNegativeWeight) ∧
    (∀ slot, c.Registered .affixPool slot →
      (∀ m ∈ (c.pool ⟨slot⟩).members, c.require .affix (c.affix m.1).id = .ok m.1.slot) ∧
      ∀ crit : AffixCriteria, ∀ s e s', (rollFromPool c (c.pool ⟨slot⟩).members crit).run s =
        .error e s' → ¬ e.IsNotFound ∧ ¬ e.IsNegativeWeight) := by
  refine ⟨fun slot hreg => ⟨?_, ?_⟩, fun slot hreg => ⟨?_, ?_⟩, fun slot hreg => ⟨?_, ?_⟩⟩
  · obtain ⟨key, hkey⟩ := hreg
    exact fun m hm => hc.loot_member_found hkey hm
  · exact fun s e s' h => (noMiss_rollLoot hc hw hreg s e s' h)
  · obtain ⟨key, hkey⟩ := hreg
    exact fun p hp => hc.item_pool_found hkey hp
  · exact fun crit hcount s e s' h => (noMiss_rollItem hc hw hreg hcount s e s' h)
  · obtain ⟨key, hkey⟩ := hreg
    exact fun m hm => hc.pool_member_found hkey hm
  · obtain ⟨key, hkey⟩ := hreg
    have hmw := hw.pools (key, slot) hkey
    have hfound : ∀ m ∈ (c.pool ⟨slot⟩).members, ∃ slot', c.require .affix (c.affix m.1).id =
        .ok slot' := fun m hm => ⟨_, hc.pool_member_found hkey hm⟩
    exact fun crit s e s' h => (noMiss_rollFromPool hmw hfound crit s e s' h)

/-- The sample catalog is coherent and weighs by non-negative integers, so no drop from its loot
pool misses. -/
theorem sample_rolls_never_miss :
    sampleLootCatalog.Coherent ∧ sampleLootCatalog.NonnegWeights ∧
      ∀ s e s', (rollLoot sampleLootCatalog sampleLoot).run s = .error e s' →
        ¬ e.IsNotFound ∧ ¬ e.IsNegativeWeight := by
  have hw : sampleLootCatalog.NonnegWeights := by
    constructor
    · intro e he m hm
      simp only [sampleLootCatalog, List.mem_singleton] at he
      subst he
      change m ∈ sampleLootPool.members at hm
      simp only [sampleLootPool, List.mem_singleton] at hm
      subst hm
      simp
    · intro e he m hm
      simp only [sampleLootCatalog, List.mem_singleton] at he
      subst he
      change m ∈ sampleLoot.members at hm
      simp only [sampleLoot, List.mem_cons, List.not_mem_nil, or_false] at hm
      rcases hm with rfl | rfl <;> simp
  exact ⟨sampleLootCatalog_coherent, hw,
    ((rolls_never_miss sampleLootCatalog_coherent hw).1 0 ⟨1, List.mem_singleton_self _⟩).2⟩

end Loot
