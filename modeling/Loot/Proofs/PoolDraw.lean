import Loot.Roll.Affix
import Loot.Proofs.Weighted
import Loot.Proofs.Registry

/-!
# Drawing an affix from pool members

One draw from pool members filters them by the criteria, chooses one by weight, and rolls the
affix its id resolves to. A member is *drawable* when the criteria admit its affix and its weight
is a positive integer: a chosen id is always a drawable member's, and nothing is chosen only when no
member is drawable.
-/

namespace Loot

open Loot.Json Loot.Random

variable {c : Catalog} {crit : AffixCriteria} {X : Value} {p : Placement}
  {ms : List (Ref .affix × Value)} {s s' : Random.Source}

/-- A pool member can be drawn under criteria when they admit its affix's current id and
placement and its weight stands for a positive integer. -/
def Catalog.Drawable (c : Catalog) (crit : AffixCriteria) (m : Ref .affix × Value) : Prop :=
  crit.admits (c.affix m.1).id (c.affix m.1).placement = .ok true ∧
    ∃ w : Int, m.2.toNum? = some (.int w) ∧ 0 < w

/-! ## Admitting an id -/

/-- Asking whether a value is in a set succeeds for a key value, with the answer of comparing it
with each member as keys compare. -/
theorem memberOf_eq_ok {ids : List Value} {b : Bool} :
    X.memberOf ids = .ok b ↔ X.checkKey = .ok () ∧ ids.any X.sameKey = b := by
  unfold Value.memberOf
  cases X.checkKey with
  | error e => simp
  | ok u => simp [pure, Except.pure, eq_comm]

namespace AffixCriteria

/-- Criteria admit an id exactly when each condition that is set holds of it. -/
theorem admits_eq_ok_true :
    crit.admits X p = .ok true ↔
      (∀ ids, crit.allowed = some ids → X.memberOf ids = .ok true) ∧
      (∀ ids, crit.disallowed = some ids → X.memberOf ids = .ok false) ∧
      (∀ q, crit.placement = some q → q = p) := by
  rcases crit with ⟨allowed, disallowed, placement, maximumTier, itemLevel⟩
  cases allowed <;> cases disallowed <;> cases placement <;>
    simp [admits, except_bind_eq_ok, pure, Except.pure]

/-- The criteria `b` with the ids `drawn` disallowed besides: an item draws each affix so, with
the ids drawn before it. -/
def excluding (b : AffixCriteria) (drawn : List Value) : AffixCriteria :=
  { b with disallowed := some (b.disallowed.getD [] ++ drawn) }

/-- Adding ids to the disallowed set admits exactly the ids admitted before that are not among
the added ones, provided the id can be asked about at all. -/
theorem admits_excluding_eq_ok_true (b : AffixCriteria) (drawn : List Value) :
    (b.excluding drawn).admits X p = .ok true ↔
      X.checkKey = .ok () ∧ b.admits X p = .ok true ∧ drawn.any X.sameKey = false := by
  rw [excluding, admits_eq_ok_true, admits_eq_ok_true]
  cases hd : b.disallowed with
  | none =>
    simp only [Option.some.injEq, forall_eq', Option.getD_none, List.nil_append, memberOf_eq_ok,
      reduceCtorEq, false_implies, implies_true, true_and]
    constructor
    · rintro ⟨ha, ⟨hk, hany⟩, hp⟩
      exact ⟨hk, ⟨ha, hp⟩, hany⟩
    · rintro ⟨hk, ⟨ha, hp⟩, hany⟩
      exact ⟨ha, ⟨hk, hany⟩, hp⟩
  | some ids =>
    simp only [Option.some.injEq, forall_eq', Option.getD_some, memberOf_eq_ok, List.any_append,
      Bool.or_eq_false_iff]
    constructor
    · rintro ⟨ha, ⟨hk, hids, hany⟩, hp⟩
      exact ⟨hk, ⟨ha, ⟨hk, hids⟩, hp⟩, hany⟩
    · rintro ⟨hk, ⟨ha, ⟨-, hids⟩, hp⟩, hany⟩
      exact ⟨ha, ⟨hk, hids, hany⟩, hp⟩

/-- The eligible tiers do not depend on the ids excluded. -/
@[simp]
theorem eligibleTiers_excluding (b : AffixCriteria) (drawn : List Value) (m : TierMap) :
    (b.excluding drawn).eligibleTiers m = b.eligibleTiers m := rfl

end AffixCriteria

/-! ## The admitted members -/

/-- The admitted candidates of a list of members: the first member's admission is asked first,
and it heads the candidates of the rest when it is admitted. -/
theorem admitted_cons (m : Ref .affix × Value) (ms : List (Ref .affix × Value)) :
    admitted c (m :: ms) crit =
      crit.admits (c.affix m.1).id (c.affix m.1).placement >>= fun ok =>
        admitted c ms crit >>= fun rest =>
          pure (if ok then ((c.affix m.1).id, m.2) :: rest else rest) := by
  unfold admitted
  simp only [List.filterMapM_cons]
  cases crit.admits (c.affix m.1).id (c.affix m.1).placement with
  | error e => rfl
  | ok b => cases b <;> simp

theorem admitted_cons_eq_ok {m : Ref .affix × Value} {cands : List (Value × Value)} :
    admitted c (m :: ms) crit = .ok cands ↔
      ∃ ok rest, crit.admits (c.affix m.1).id (c.affix m.1).placement = .ok ok ∧
        admitted c ms crit = .ok rest ∧
        cands = if ok then ((c.affix m.1).id, m.2) :: rest else rest := by
  rw [admitted_cons]
  simp only [except_bind_eq_ok, except_pure_eq_ok]
  constructor
  · rintro ⟨ok, hok, rest, hrest, hcands⟩
    exact ⟨ok, rest, hok, hrest, hcands.symm⟩
  · rintro ⟨ok, rest, hok, hrest, hcands⟩
    exact ⟨ok, hok, rest, hrest, hcands.symm⟩

/-- Every candidate is an admitted member, as its current id and weight. -/
theorem mem_admitted {cands : List (Value × Value)} (h : admitted c ms crit = .ok cands)
    {x : Value × Value} (hx : x ∈ cands) :
    ∃ m ∈ ms, crit.admits (c.affix m.1).id (c.affix m.1).placement = .ok true ∧
      x = ((c.affix m.1).id, m.2) := by
  induction ms generalizing cands with
  | nil =>
    cases h
    simp at hx
  | cons m ms ih =>
    obtain ⟨ok, rest, hok, hrest, rfl⟩ := admitted_cons_eq_ok.1 h
    cases ok with
    | false =>
      obtain ⟨m', hm', hadm, rfl⟩ := ih hrest (by simpa using hx)
      exact ⟨m', List.mem_cons_of_mem m hm', hadm, rfl⟩
    | true =>
      rcases List.mem_cons.1 (by simpa using hx) with rfl | hx'
      · exact ⟨m, List.mem_cons_self, hok, rfl⟩
      · obtain ⟨m', hm', hadm, rfl⟩ := ih hrest hx'
        exact ⟨m', List.mem_cons_of_mem m hm', hadm, rfl⟩

/-- Every admitted member is a candidate. -/
theorem mem_admitted_of_admits {cands : List (Value × Value)} (h : admitted c ms crit = .ok cands)
    {m : Ref .affix × Value} (hm : m ∈ ms)
    (hadm : crit.admits (c.affix m.1).id (c.affix m.1).placement = .ok true) :
    ((c.affix m.1).id, m.2) ∈ cands := by
  induction ms generalizing cands with
  | nil => simp at hm
  | cons m' ms ih =>
    obtain ⟨ok, rest, hok, hrest, rfl⟩ := admitted_cons_eq_ok.1 h
    rcases List.mem_cons.1 hm with rfl | hm'
    · rw [hadm] at hok
      cases hok
      simp
    · have := ih hrest hm'
      cases ok <;> simp [this]

/-- The candidates of members none of whose weights is a double have no double weight. -/
theorem admitted_weights_not_float {cands : List (Value × Value)}
    (h : admitted c ms crit = .ok cands) (hw : ∀ m ∈ ms, ∀ x, m.2 ≠ .float x) :
    ∀ v ∈ cands.map (·.2), ∀ x, v ≠ .float x := by
  intro v hv
  obtain ⟨y, hy, rfl⟩ := List.mem_map.1 hv
  obtain ⟨m, hm, -, rfl⟩ := mem_admitted h hy
  exact hw m hm

/-! ## Choosing an id -/

/-- A chosen id is the current id of a drawable member. -/
theorem chooseAffixId_eq_some (hw : ∀ m ∈ ms, ∀ x, m.2 ≠ .float x)
    (h : (chooseAffixId c ms crit).run s = .ok (some X) s') :
    ∃ m ∈ ms, c.Drawable crit m ∧ X = (c.affix m.1).id := by
  obtain ⟨cands, s₁, hread, hrest⟩ := run_bind_eq_ok.1 h
  obtain ⟨hcands, rfl⟩ := run_fromExcept_eq_ok.1 hread
  obtain ⟨o, s₂, hdraw, hpick⟩ := run_bind_eq_ok.1 hrest
  obtain ⟨ws, hws, hnn, hdraw⟩ :=
    weightedIndexOf_eq_ok_of_not_float (admitted_weights_not_float hcands hw) hdraw
  cases o with
  | none => simp at hpick
  | some j =>
    obtain ⟨hj, hpos⟩ := weightedIndex_ints_pos hnn hdraw
    obtain ⟨hlen, hweight⟩ := hws.toNum?_getElem hj
    rw [List.length_map] at hlen
    simp only [run_pure_eq_ok, Option.map_eq_some_iff] at hpick
    obtain ⟨⟨x, hx, rfl⟩, -⟩ := hpick
    rw [List.getElem?_eq_getElem hlen, Option.some.injEq] at hx
    subst hx
    obtain ⟨m, hm, hadm, hx⟩ := mem_admitted hcands (List.getElem_mem hlen)
    rw [List.getElem_map, hx] at hweight
    exact ⟨m, hm, ⟨hadm, ws[j], hweight, hpos⟩, by rw [hx]⟩

/-- Nothing is chosen only when no member is drawable. -/
theorem chooseAffixId_eq_none (hw : ∀ m ∈ ms, ∀ x, m.2 ≠ .float x)
    (h : (chooseAffixId c ms crit).run s = .ok none s') : ∀ m ∈ ms, ¬ c.Drawable crit m := by
  rintro m hm ⟨hadm, w, hmw, hpos⟩
  obtain ⟨cands, s₁, hread, hrest⟩ := run_bind_eq_ok.1 h
  obtain ⟨hcands, rfl⟩ := run_fromExcept_eq_ok.1 hread
  obtain ⟨o, s₂, hdraw, hpick⟩ := run_bind_eq_ok.1 hrest
  obtain ⟨ws, hws, hnn, hdraw⟩ :=
    weightedIndexOf_eq_ok_of_not_float (admitted_weights_not_float hcands hw) hdraw
  have hwin : w ∈ ws :=
    hws.mem (List.mem_map_of_mem (f := (·.2)) (mem_admitted_of_admits hcands hm hadm)) hmw
  cases o with
  | none =>
    rcases weightedIndex_ints_eq_ok hnn hdraw with ⟨hz, -, -⟩ | ⟨-, r, j, -, -, hj, -⟩
    · have := List.all_zero_of_le_zero_le_of_sum_eq_zero hnn hz hwin
      omega
    · cases hj
  | some j =>
    obtain ⟨hj, -⟩ := weightedIndex_ints_pos hnn hdraw
    obtain ⟨hlen, -⟩ := hws.toNum?_getElem hj
    rw [List.length_map] at hlen
    simp [List.getElem?_eq_getElem hlen] at hpick

/-! ## Rolling the chosen affix -/

/-- A rolled affix is of the definition it was rolled from. -/
theorem rollAffix_eq_some {r : Ref .affix} {a : RolledAffix}
    (h : (rollAffix c r crit).run s = .ok (some a) s') : a.affix = r := by
  obtain ⟨ts, s₁, hts, hrest⟩ := run_bind_eq_ok.1 h
  obtain ⟨o, s₂, hpick, hrest⟩ := run_bind_eq_ok.1 hrest
  cases o with
  | none => simp at hrest
  | some t =>
    obtain ⟨mods, s₃, -, hrest⟩ := run_bind_eq_ok.1 hrest
    obtain ⟨ha, -⟩ := run_pure_eq_ok.1 hrest
    cases ha
    rfl

/-- An affix rolls to nothing only when it has no eligible tier. -/
theorem rollAffix_eq_none {r : Ref .affix} (h : (rollAffix c r crit).run s = .ok none s') :
    crit.eligibleTiers (c.affix r).tiers = .ok [] := by
  obtain ⟨ts, s₁, hread, hrest⟩ := run_bind_eq_ok.1 h
  obtain ⟨hts, rfl⟩ := run_fromExcept_eq_ok.1 hread
  obtain ⟨o, s₂, hpick, hrest⟩ := run_bind_eq_ok.1 hrest
  cases o with
  | none =>
    cases ts with
    | nil => exact hts
    | cons t ts =>
      obtain ⟨x, -, hx⟩ := pick_mem (List.cons_ne_nil t ts) hpick
      cases hx
  | some t =>
    obtain ⟨mods, s₃, -, hrest⟩ := run_bind_eq_ok.1 hrest
    simp at hrest

/-! ## One draw from pool members -/

/-- A draw that yields an affix chose a drawable member, and the registry resolves the member's
current id to the affix rolled. -/
theorem rollFromPool_eq_some (hw : ∀ m ∈ ms, ∀ x, m.2 ≠ .float x) {a : RolledAffix}
    (h : (rollFromPool c ms crit).run s = .ok (some a) s') :
    ∃ m ∈ ms, c.Drawable crit m ∧ c.require .affix (c.affix m.1).id = .ok a.affix.slot := by
  obtain ⟨o, s₁, hchoose, hrest⟩ := run_bind_eq_ok.1 h
  split at hrest
  case h_1 | h_2 => simp at hrest
  case h_3 X _ =>
    obtain ⟨m, hm, hdraw, hid⟩ := chooseAffixId_eq_some hw hchoose
    obtain ⟨slot, s₂, hread, hroll⟩ := run_bind_eq_ok.1 hrest
    obtain ⟨hslot, rfl⟩ := run_fromExcept_eq_ok.1 hread
    have ha := rollAffix_eq_some hroll
    refine ⟨m, hm, hdraw, ?_⟩
    rw [← hid, ha]
    exact hslot

/-- A draw that yields nothing found no drawable member, or chose a drawable member whose id is
`null` or resolves to an affix without an eligible tier. -/
theorem rollFromPool_eq_none (hw : ∀ m ∈ ms, ∀ x, m.2 ≠ .float x)
    (h : (rollFromPool c ms crit).run s = .ok none s') :
    (∀ m ∈ ms, ¬ c.Drawable crit m) ∨
      ∃ m ∈ ms, c.Drawable crit m ∧ ((c.affix m.1).id = .null ∨
        ∃ slot, c.require .affix (c.affix m.1).id = .ok slot ∧
          crit.eligibleTiers (c.affix ⟨slot⟩).tiers = .ok []) := by
  obtain ⟨o, s₁, hchoose, hrest⟩ := run_bind_eq_ok.1 h
  split at hrest
  case h_1 => exact .inl (chooseAffixId_eq_none hw hchoose)
  case h_2 =>
    obtain ⟨m, hm, hdraw, hid⟩ := chooseAffixId_eq_some hw hchoose
    exact .inr ⟨m, hm, hdraw, .inl hid.symm⟩
  case h_3 X _ =>
    obtain ⟨m, hm, hdraw, hid⟩ := chooseAffixId_eq_some hw hchoose
    obtain ⟨slot, s₂, hread, hroll⟩ := run_bind_eq_ok.1 hrest
    obtain ⟨hslot, rfl⟩ := run_fromExcept_eq_ok.1 hread
    refine .inr ⟨m, hm, hdraw, .inr ⟨slot, hid ▸ hslot, rollAffix_eq_none hroll⟩⟩

end Loot
