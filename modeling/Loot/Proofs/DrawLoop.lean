import Loot.Proofs.ItemRoll
import Loot.Proofs.AffixChoice
import Loot.Proofs.FloatBits

/-!
# Draws that weigh nothing

Each turn of an item's draw loop disallows the ids drawn so far, so a turn only narrows what the
next one admits (`admitted_excluding_cons`). A turn whose admitted members weigh nothing chooses
nothing and leaves everything as it was, so the loop run for all its turns is the loop that stops at
the first such turn (`drawAffixes_eq_drawUntilWeightless`).
-/

namespace Loot

open Loot.Json Loot.Random

/-! ## Zero weights -/

namespace Decimal

open Float.Model

/-- A double equal to zero unpacks to a zero: the converse of `unpack_ne_zero`. -/
theorem unpack_zero_of_beq {x : Float} (h : (x == 0) = true) :
    ∃ s, x.toModel.unpack = .zero s := by
  have h' : x.toModel.unpack.beq (.zero .positive) = true := h
  cases hu : x.toModel.unpack with
  | zero s => exact ⟨s, rfl⟩
  | notANumber => rw [hu] at h'; cases h'
  | infinity s => rw [hu] at h'; cases s <;> cases h'
  | finite s m e hm => rw [hu] at h'; cases s <;> cases h'

/-- A double equal to zero is one of the two zeros. -/
theorem float_eq_zero_of_beq {x : Float} (h : (x == 0) = true) : x = 0.0 ∨ x = -0.0 := by
  obtain ⟨s, hs⟩ := unpack_zero_of_beq h
  rw [← ofModel_pack_unpack x, hs]
  cases s
  · exact .inr rfl
  · exact .inl rfl

end Decimal

namespace Num

/-- A zero is not below zero, `-0.0` included. -/
theorem isNeg_of_isZero : ∀ {n : Num}, n.isZero = true → n.isNeg = false
  | .int n, h => by simp_all [isZero, isNeg]
  | .float x, h => by rcases Decimal.float_eq_zero_of_beq (x := x) h with rfl | rfl <;> decide

/-- The sum of two zeros is a zero, whatever their kinds. -/
theorem add_of_isZero : ∀ {a b : Num}, a.isZero = true → b.isZero = true →
    ∃ c, a.add b = .ok c ∧ c.isZero = true
  | .int a, .int b, ha, hb => ⟨.int (a + b), rfl, by simp_all [isZero]⟩
  | .float x, .float y, hx, hy => by
    rcases Decimal.float_eq_zero_of_beq (x := x) hx with rfl | rfl <;>
      rcases Decimal.float_eq_zero_of_beq (x := y) hy with rfl | rfl <;> exact ⟨_, rfl, by decide⟩
  | .int a, .float y, ha, hy => by
    obtain rfl : a = 0 := by simpa [isZero] using ha
    rcases Decimal.float_eq_zero_of_beq (x := y) hy with rfl | rfl <;> exact ⟨_, rfl, by decide⟩
  | .float x, .int b, hx, hb => by
    obtain rfl : b = 0 := by simpa [isZero] using hb
    rcases Decimal.float_eq_zero_of_beq (x := x) hx with rfl | rfl <;> exact ⟨_, rfl, by decide⟩

end Num

namespace Random

/-- Running sums of zeros stay a zero. -/
theorem foldlM_add_of_isZero : ∀ (ns : List Num) {a : Num}, a.isZero = true →
    (∀ n ∈ ns, n.isZero = true) → ∃ t, ns.foldlM Num.add a = .ok t ∧ t.isZero = true
  | [], a, ha, _ => ⟨a, rfl, ha⟩
  | n :: ns, a, ha, hns => by
    obtain ⟨a', hadd, ha'⟩ := Num.add_of_isZero ha (hns n List.mem_cons_self)
    obtain ⟨t, ht, htz⟩ :=
      foldlM_add_of_isZero ns ha' fun m hm => hns m (List.mem_cons_of_mem n hm)
    refine ⟨t, ?_, htz⟩
    rw [List.foldlM_cons, hadd]
    exact ht

/-- A weighted draw over zeros answers `none` and draws nothing: no zero is negative, and their
total is a zero, which is no positive total. -/
theorem weightedIndex_of_isZero {ns : List Num} (h : ∀ n ∈ ns, n.isZero = true) :
    weightedIndex ns = pure none := by
  have hcheck : checkWeights ns = .ok () := by
    have hneg : ns.any Num.isNeg = false :=
      List.any_eq_false.2 fun n hn => by simp [Num.isNeg_of_isZero (h n hn)]
    simp [checkWeights, hneg]
  obtain ⟨t, ht, htz⟩ := foldlM_add_of_isZero ns (a := .int 0) rfl h
  have htotal : total ns = .ok t := ht
  simp only [weightedIndex, hcheck, htotal]
  cases t with
  | int n =>
    obtain rfl : n = 0 := by simpa [Num.isZero] using htz
    rfl
  | float x => rcases Decimal.float_eq_zero_of_beq (x := x) htz with rfl | rfl <;> rfl

end Random

/-- Whether a weight is a zero number: the integer zero, `false`, or a double zero of either
sign. -/
def Json.Value.isZeroWeight (v : Value) : Bool :=
  v.toNum?.any Num.isZero

namespace Random

/-- Zero weights given as values read as zero numbers. -/
theorem weightsOfValues_go_of_isZeroWeight (vs₀ : List Value) : ∀ vs : List Value,
    (∀ v ∈ vs, v.isZeroWeight = true) →
      ∃ ns, weightsOfValues.go vs₀ vs = .ok ns ∧ ∀ n ∈ ns, n.isZero = true
  | [], _ => ⟨[], rfl, by simp⟩
  | v :: vs, h => by
    obtain ⟨n, hv, hn⟩ := (Option.any_eq_true _ _).1 (h v List.mem_cons_self)
    obtain ⟨ns, hns, hz⟩ :=
      weightsOfValues_go_of_isZeroWeight vs₀ vs fun w hw => h w (List.mem_cons_of_mem v hw)
    refine ⟨n :: ns, ?_, ?_⟩
    · rw [weightsOfValues_go_cons hv, if_neg (by simp [Num.isNeg_of_isZero hn]), hns]
      rfl
    · exact List.forall_mem_cons.2 ⟨hn, hz⟩

/-- A weighted draw over zero weights given as values answers `none` and draws nothing. -/
theorem weightedIndexOf_of_isZeroWeight {vs : List Value} (h : ∀ v ∈ vs, v.isZeroWeight = true) :
    weightedIndexOf vs = pure none := by
  obtain ⟨ns, hns, hz⟩ := weightsOfValues_go_of_isZeroWeight vs vs h
  have hread : weightsOfValues vs = .ok ns := hns
  rw [weightedIndexOf, hread, fromExcept, pure_bind, weightedIndex_of_isZero hz]

/-- Integer weights are zero weights exactly when each integer is zero. -/
theorem IntWeights.isZeroWeight_iff : ∀ {vs : List Value} {ws : List Int}, IntWeights vs ws →
    ((∀ v ∈ vs, v.isZeroWeight = true) ↔ ∀ w ∈ ws, w = 0)
  | [], ws, h => by simp [intWeights_nil_iff.1 h]
  | v :: vs, _, h => by
    obtain ⟨w, ws, rfl, hv, hvs⟩ := intWeights_cons_iff.1 h
    rw [List.forall_mem_cons, List.forall_mem_cons, hvs.isZeroWeight_iff]
    simp [Value.isZeroWeight, hv, Num.isZero]

end Random

/-! ## Admitted members that weigh nothing -/

/-- Whether the members admitted by the criteria weigh nothing: admission succeeds and every
admitted weight is a zero weight, so also when none is admitted. -/
def Catalog.weighsNothing (c : Catalog) (ms : List (Ref .affix × Value)) (crit : AffixCriteria) :
    Bool :=
  match admitted c ms crit with
  | .ok cands => cands.all (·.2.isZeroWeight)
  | .error _ => false

variable {c : Catalog} {ms : List (Ref .affix × Value)} {crit : AffixCriteria}

theorem Catalog.weighsNothing_iff : c.weighsNothing ms crit = true ↔
    ∃ cands, admitted c ms crit = .ok cands ∧ ∀ p ∈ cands, p.2.isZeroWeight = true := by
  unfold Catalog.weighsNothing
  cases admitted c ms crit with
  | error e => simp
  | ok cands => simp

/-- For integer weights, none negative, the admitted members weigh nothing exactly when their
weights sum to zero. -/
theorem weighsNothing_iff_sum_eq_zero {cands : List (Value × Value)} {ws : List Int}
    (hc : admitted c ms crit = .ok cands) (hws : IntWeights (cands.map (·.2)) ws)
    (hnn : ∀ w ∈ ws, 0 ≤ w) : c.weighsNothing ms crit = true ↔ ws.sum = 0 := by
  have hzero : (∀ p ∈ cands, p.2.isZeroWeight = true) ↔ ∀ w ∈ ws, w = 0 :=
    List.forall_mem_map.symm.trans hws.isZeroWeight_iff
  rw [Catalog.weighsNothing_iff]
  constructor
  · rintro ⟨cands', hc', hz⟩
    rw [hc] at hc'
    cases hc'
    exact List.sum_eq_zero (hzero.1 hz)
  · intro hsum
    exact ⟨cands, hc, hzero.2 fun w hw => List.all_zero_of_le_zero_le_of_sum_eq_zero hnn hsum hw⟩

/-- With admitted members that weigh nothing, choosing an id yields nothing and draws nothing. -/
theorem chooseAffixId_of_weighsNothing (h : c.weighsNothing ms crit = true) :
    chooseAffixId c ms crit = pure none := by
  obtain ⟨cands, hc, hz⟩ := Catalog.weighsNothing_iff.1 h
  have hw : weightedIndexOf (cands.map (·.2)) = pure none :=
    weightedIndexOf_of_isZeroWeight (List.forall_mem_map.2 hz)
  rw [chooseAffixId, hc, fromExcept, pure_bind, hw, pure_bind]

/-- With admitted members that weigh nothing, a draw from them yields nothing and draws
nothing. -/
theorem rollFromPool_of_weighsNothing (h : c.weighsNothing ms crit = true) :
    rollFromPool c ms crit = pure none := by
  rw [rollFromPool, chooseAffixId_of_weighsNothing h, pure_bind]

/-! ## Narrowing -/

namespace AffixCriteria

variable {X : Value} {p : Placement}

/-- For an id that can be a set member, the criteria's answer is a plain condition: in the
allowed set if one is set, not in the disallowed set if one is set, and of the placement if one
is set. -/
theorem admits_of_checkKey (crit : AffixCriteria) (hk : X.checkKey = .ok ()) :
    crit.admits X p = .ok (crit.allowed.all (·.any X.sameKey) &&
      !crit.disallowed.any (·.any X.sameKey) && crit.placement.all (· == p)) := by
  have hm : ∀ L, X.memberOf L = .ok (L.any X.sameKey) := fun L => by rw [Value.memberOf, hk]; rfl
  rcases crit with ⟨allowed, disallowed, placement, maximumTier, itemLevel⟩
  -- each set or placement that is unset drops out; the rest is a condition on three booleans
  rcases allowed with _ | A <;> rcases disallowed with _ | D <;> rcases placement with _ | q <;>
    simp only [admits, hm, except_ok_bind, bne, Option.all_none, Option.all_some, Option.any_none,
      Option.any_some, pure, Except.pure, Bool.and_true, Bool.true_and, Bool.not_false] <;>
    split_ifs <;> simp_all [-List.any_eq_true, -List.any_eq_false]

/-- An id that cannot be a set member fails as soon as a disallowed set is asked about it, and the
loop always asks one. -/
theorem admits_excluding_of_checkKey {e : Fault} (b : AffixCriteria) (d : List Value)
    (hk : X.checkKey = .error e) : (b.excluding d).admits X p = .error e := by
  rcases b with ⟨_ | A, disallowed, placement, maximumTier, itemLevel⟩ <;>
    simp [admits, excluding, Value.memberOf, hk]

/-- Disallowing one id more admits what was admitted before less that id, and fails where it
failed before. -/
theorem admits_excluding_cons (b : AffixCriteria) (d : List Value) (x : Value) :
    (b.excluding (x :: d)).admits X p =
      (fun ok => ok && !X.sameKey x) <$> (b.excluding d).admits X p := by
  cases hk : X.checkKey with
  | error e =>
    rw [admits_excluding_of_checkKey b _ hk, admits_excluding_of_checkKey b _ hk]
    rfl
  | ok u =>
    cases u
    rw [admits_of_checkKey _ hk, admits_of_checkKey _ hk]
    show Except.ok _ = Except.ok _
    congr 1
    simp only [excluding, Option.any_some, List.any_append, List.any_cons]
    cases X.sameKey x <;> simp

end AffixCriteria

variable {b : AffixCriteria} {d : List Value} {x : Value}

/-- The candidates of a turn that disallows one id more are those of the turn before less the
members of that id, in the same order; the admission fails where it failed before. -/
theorem admitted_excluding_cons :
    admitted c ms (b.excluding (x :: d)) =
      List.filter (fun p => !p.1.sameKey x) <$> admitted c ms (b.excluding d) := by
  induction ms with
  | nil => rfl
  | cons m ms ih =>
    rw [admitted_cons, admitted_cons, AffixCriteria.admits_excluding_cons, ih]
    cases (b.excluding d).admits (c.affix m.1).id (c.affix m.1).placement with
    | error e => rfl
    | ok ok =>
      cases admitted c ms (b.excluding d) with
      | error e => rfl
      | ok rest =>
        show Except.ok _ = Except.ok _
        cases ok <;> cases hk : (c.affix m.1).id.sameKey x <;> simp [hk]

/-- A member admitted by a turn was admitted by the turn before. -/
theorem Catalog.Admits.of_excluding_cons {m : Ref .affix × Value}
    (h : c.Admits (b.excluding (x :: d)) m) : c.Admits (b.excluding d) m := by
  unfold Catalog.Admits at h ⊢
  rw [AffixCriteria.admits_excluding_cons] at h
  cases hd : (b.excluding d).admits (c.affix m.1).id (c.affix m.1).placement with
  | error e => rw [hd] at h; cases h
  | ok ok =>
    rw [hd] at h
    cases ok
    · cases h
    · rfl

/-- Members that weigh nothing still weigh nothing once one id more is disallowed. -/
theorem weighsNothing_excluding_cons (h : c.weighsNothing ms (b.excluding d) = true) :
    c.weighsNothing ms (b.excluding (x :: d)) = true := by
  obtain ⟨cands, hc, hz⟩ := Catalog.weighsNothing_iff.1 h
  refine Catalog.weighsNothing_iff.2
    ⟨cands.filter fun p => !p.1.sameKey x, ?_, fun p hp => hz p (List.mem_of_mem_filter hp)⟩
  rw [admitted_excluding_cons, hc]
  rfl

/-! ## The loop -/

/-- One turn of the draw loop under base criteria `b`. -/
theorem drawAffixes_succ (n : Nat) (drawn : List Value) (acc : List RolledAffix) :
    drawAffixes c ms (some b) (n + 1) drawn acc =
      rollFromPool c ms (b.excluding drawn) >>= fun o => match o with
        | none => drawAffixes c ms (some b) n drawn acc
        | some a => fromExcept (c.affix a.affix).id.checkKey >>= fun _ =>
            drawAffixes c ms (some b) n ((c.affix a.affix).id :: drawn) (a :: acc) := rfl

/-- A turn whose admitted members weigh nothing chooses nothing, draws nothing, and leaves the
ids drawn and the affixes as they were: it is no turn at all. -/
theorem drawAffixes_succ_of_weighsNothing {drawn : List Value}
    (h : c.weighsNothing ms (b.excluding drawn) = true) (n : Nat) (acc : List RolledAffix) :
    drawAffixes c ms (some b) (n + 1) drawn acc = drawAffixes c ms (some b) n drawn acc := by
  rw [drawAffixes_succ, rollFromPool_of_weighsNothing h, pure_bind]

/-- Once the admitted members weigh nothing, the rest of the loop returns the affixes drawn so
far and draws nothing: each later turn asks the same criteria, since none adds an id. -/
theorem drawAffixes_of_weighsNothing {drawn : List Value}
    (h : c.weighsNothing ms (b.excluding drawn) = true) (n : Nat) (acc : List RolledAffix) :
    drawAffixes c ms (some b) n drawn acc = pure acc.reverse := by
  induction n with
  | zero => rfl
  | succ n ih => rw [drawAffixes_succ_of_weighsNothing h, ih]

/-- The draw loop that stops at the first turn whose admitted members weigh nothing, and otherwise
turns as the item's draw loop does. -/
def drawUntilWeightless (c : Catalog) (ms : List (Ref .affix × Value)) (b : AffixCriteria) :
    Nat → List Value → List RolledAffix → Draw (List RolledAffix)
  | 0, _, acc => pure acc.reverse
  | n + 1, drawn, acc =>
    if c.weighsNothing ms (b.excluding drawn) then pure acc.reverse
    else do
      match ← rollFromPool c ms (b.excluding drawn) with
      | none => drawUntilWeightless c ms b n drawn acc
      | some a =>
        let id := (c.affix a.affix).id
        fromExcept id.checkKey
        drawUntilWeightless c ms b n (id :: drawn) (a :: acc)

/-- Running the draw loop for all its turns is running it until the first turn that weighs
nothing: the same answer, or the same fault, and the same source left. -/
theorem drawAffixes_eq_drawUntilWeightless (n : Nat) (drawn : List Value)
    (acc : List RolledAffix) :
    drawAffixes c ms (some b) n drawn acc = drawUntilWeightless c ms b n drawn acc := by
  induction n generalizing drawn acc with
  | zero => rfl
  | succ n ih =>
    by_cases h : c.weighsNothing ms (b.excluding drawn) = true
    · rw [drawAffixes_of_weighsNothing h, drawUntilWeightless, if_pos h]
    · -- a turn that weighs something is the same turn in both loops
      rw [drawAffixes_succ, drawUntilWeightless, if_neg h]
      refine congrArg (rollFromPool c ms (b.excluding drawn) >>= ·) (funext fun o => ?_)
      cases o with
      | none => exact ih drawn acc
      | some a => exact congrArg (_ >>= ·) (funext fun _ => ih _ _)

/-- The draw loop of an item narrows what it admits from turn to turn; once a turn's admitted
members weigh nothing (for integer weights: sum to zero), that turn and every later one draw
nothing and change nothing, so running all the turns is stopping at the first such turn. -/
theorem draws_narrow_until_weightless (c : Catalog) (ms : List (Ref .affix × Value))
    (b : AffixCriteria) :
    (∀ x drawn, admitted c ms (b.excluding (x :: drawn)) =
        List.filter (fun p => !p.1.sameKey x) <$> admitted c ms (b.excluding drawn)) ∧
    (∀ x drawn m, c.Admits (b.excluding (x :: drawn)) m → c.Admits (b.excluding drawn) m) ∧
    (∀ drawn cands ws, admitted c ms (b.excluding drawn) = .ok cands →
      IntWeights (cands.map (·.2)) ws → (∀ w ∈ ws, 0 ≤ w) →
      (c.weighsNothing ms (b.excluding drawn) = true ↔ ws.sum = 0)) ∧
    (∀ drawn, c.weighsNothing ms (b.excluding drawn) = true →
      rollFromPool c ms (b.excluding drawn) = pure none ∧
      (∀ x, c.weighsNothing ms (b.excluding (x :: drawn)) = true) ∧
      ∀ n acc, drawAffixes c ms (some b) (n + 1) drawn acc = drawAffixes c ms (some b) n drawn acc ∧
        drawAffixes c ms (some b) n drawn acc = pure acc.reverse) ∧
    ∀ n drawn acc, drawAffixes c ms (some b) n drawn acc = drawUntilWeightless c ms b n drawn acc :=
  ⟨fun _ _ => admitted_excluding_cons, fun _ _ _ => Catalog.Admits.of_excluding_cons,
    fun _ _ _ => weighsNothing_iff_sum_eq_zero,
    fun _ h => ⟨rollFromPool_of_weighsNothing h, fun _ => weighsNothing_excluding_cons h,
      fun n acc => ⟨drawAffixes_succ_of_weighsNothing h n acc, drawAffixes_of_weighsNothing h n acc⟩⟩,
    drawAffixes_eq_drawUntilWeightless⟩

end Loot
