import Loot.Proofs.TextRoundTrip
import Loot.Proofs.InstanceRecords
import Loot.Proofs.TierOrder

/-!
# Saved records read back

Each record the catalog writes reads back as what was written: stat ranges, tiers, ascending tier
maps (`TierMap.ofValue_toValue`), affixes, and pool, item and loot pool records before linking,
which then resolves each id to the slot the registry gives it. The integers must be readable
(`Decimal.Readable`), which also makes the records writable (`TierMap.plain_toValue`).
-/

namespace Loot

open Loot.Json Loot.Decimal Loot.Text

/-! ## Integers written as text -/

namespace Decimal

/-- An integer the readers take back from its digits: one of at most `maxIntDigits` digits. -/
def Readable (n : Int) : Prop := (Nat.toDigits 10 n.natAbs).length ≤ maxIntDigits

instance : DecidablePred Readable := fun _ => inferInstanceAs (Decidable (_ ≤ _))

theorem asciiForm_of_lt : ∀ {cs : List Char}, (∀ c ∈ cs, c.toNat < 0x7F) → asciiForm cs = some cs
  | [], _ => rfl
  | c :: cs, h => by
    have hc := h c List.mem_cons_self
    simp [asciiForm, hc, asciiForm_of_lt fun x hx => h x (List.mem_cons_of_mem c hx)]

/-- A run of digits without underscores is all digits, with nothing after it. -/
theorem digitRun_digits : ∀ {ds : List Char}, (∀ c ∈ ds, c.isDigit) → digitRun ds = some (ds, [])
  | [], _ => rfl
  | [c], h => by simp [digitRun, h c List.mem_cons_self]
  | c :: d :: rest, h => by
    have hc := h c List.mem_cons_self
    have hd : d ≠ '_' := by
      rintro rfl
      simpa using h '_' (by simp)
    rw [digitRun.eq_3 _ _ (fun _ _ heq => hd (List.cons.inj heq).1)
      (fun h => hd (List.cons.inj h).1), if_pos hc,
      digitRun_digits fun x hx => h x (List.mem_cons_of_mem c hx)]
    rfl

theorem digit_lt {c : Char} (h : c.isDigit = true) : c.toNat < 0x7F := by
  simp only [Char.isDigit, Bool.and_eq_true, decide_eq_true_eq] at h
  have h9 : c.val.toNat ≤ 57 := UInt32.le_iff_toNat_le.mp h.2
  exact Nat.lt_of_le_of_lt h9 (by decide)

theorem isAsciiBlank_of_isDigit {c : Char} (h : c.isDigit = true) : isAsciiBlank c = false := by
  cases hb : isAsciiBlank c
  · rfl
  · simp only [isAsciiBlank, Bool.or_eq_true, beq_iff_eq] at hb
    rcases hb with ((((rfl | rfl) | rfl) | rfl) | rfl) | rfl <;> exact absurd h (by decide)

/-- Text that starts with a sign or with a digit: the reader skips no blank and splits off the
sign. -/
theorem splitSign_signed {p : Prop} [Decidable p] {w : Char} {ws : List Char}
    (hw : w.isDigit = true) :
    splitSign (((if p then ['-'] else []) ++ w :: ws).dropWhile isAsciiBlank) =
      (decide p, w :: ws) := by
  have hblank := isAsciiBlank_of_isDigit hw
  have hminus : w ≠ '-' := by rintro rfl; exact absurd hw (by decide)
  have hplus : w ≠ '+' := by rintro rfl; exact absurd hw (by decide)
  by_cases hp : p
  · rw [if_pos hp, List.singleton_append, List.dropWhile_cons_of_neg (by decide)]
    simp [hp, splitSign]
  · simp [hp, hblank, splitSign, hminus, hplus]

/-- An integer's text reads back as the integer, when it has at most `maxIntDigits` digits. -/
theorem readInt_toString {n : Int} (h : Readable n) : readInt (toString n).toList = .value n := by
  rw [Json.toString_int_toList]
  obtain ⟨w, ws, hw⟩ := List.exists_cons_of_ne_nil (Nat.toDigits_ne_nil (b := 10) (n := n.natAbs))
  have hdigits : ∀ c ∈ Nat.toDigits 10 n.natAbs, c.isDigit := Json.toDigits_isDigit n.natAbs
  have hwd : w.isDigit := hdigits w (by simp [hw])
  have hascii : ∀ c ∈ (if n < 0 then ['-'] else []) ++ Nat.toDigits 10 n.natAbs,
      c.toNat < 0x7F := by
    intro c hc
    rcases List.mem_append.mp hc with hc | hc
    · split at hc <;> simp_all
    · exact digit_lt (hdigits c hc)
  have hrun := digitRun_digits hdigits
  have hlong : ¬(Nat.toDigits 10 n.natAbs).length > maxIntDigits := Nat.not_lt.mpr h
  rw [hw] at hrun hlong
  have hvalue : digitsValue (w :: ws) = n.natAbs := by rw [← hw, Json.digitsValue_toDigits]
  have hw3 : w ≠ '_' := by rintro rfl; exact absurd hwd (by decide)
  unfold readInt
  rw [asciiForm_of_lt hascii, hw]
  simp only [splitSign_signed hwd]
  split
  · next heq => exact absurd (List.cons.inj heq).1 hw3
  · simp only [hrun, if_neg hlong, List.isEmpty_cons, List.dropWhile_nil, List.isEmpty_nil, hvalue,
      Bool.false_or, Bool.not_true, Bool.false_eq_true, if_false, IntReading.value.injEq]
    by_cases hneg : n < 0
    · rw [if_pos (decide_eq_true hneg)]; omega
    · rw [if_neg (by simpa using hneg)]; omega

/-- Readable integers with the same text are equal. -/
theorem eq_of_toString_eq {a b : Int} (ha : Readable a) (hb : Readable b)
    (h : toString a = toString b) : a = b := by
  have hread := readInt_toString ha
  rw [h, readInt_toString hb] at hread
  exact (IntReading.value.inj hread).symm

end Decimal

/-! ## Folds that succeed step by step -/

/-- A fold succeeds with the state `S l` when each step takes the state of the elements before it
to the state of those elements and itself. -/
theorem foldlM_eq_ok_of_split {σ α ε : Type} {f : σ → α → Except ε σ} (S : List α → σ)
    (l : List α) (h : ∀ mid x post, l = mid ++ x :: post → f (S mid) x = .ok (S (mid ++ [x]))) :
    l.foldlM f (S []) = .ok (S l) := by
  -- the fold over the rest of the list, from the state of the elements already folded
  suffices key : ∀ post mid, l = mid ++ post → post.foldlM f (S mid) = .ok (S l) from
    key l [] rfl
  intro post
  induction post with
  | nil =>
    intro mid hl
    rw [hl, List.append_nil]
    rfl
  | cons x post ih =>
    intro mid hl
    rw [List.foldlM_cons, h mid x post hl]
    exact ih (mid ++ [x]) (by rw [hl, List.append_assoc, List.singleton_append])

/-- Mapping the images of a list succeeds when each image does, with the results in order. -/
theorem mapM_map_eq_ok {α β γ ε : Type} {f : α → β} {g : β → Except ε γ} {h : α → γ} :
    ∀ {xs : List α}, (∀ x ∈ xs, g (f x) = .ok (h x)) → (xs.map f).mapM g = .ok (xs.map h)
  | [], _ => rfl
  | x :: xs, hx => by
    rw [List.map_cons, List.mapM_cons, hx x List.mem_cons_self,
      mapM_map_eq_ok fun y hy => hx y (List.mem_cons_of_mem x hy)]
    rfl

/-- Mapping a list succeeds when each element does, with the results in order. -/
theorem mapM_eq_ok_map {α β ε : Type} {g : α → Except ε β} {h : α → β} {xs : List α}
    (hx : ∀ x ∈ xs, g x = .ok (h x)) : xs.mapM g = .ok (xs.map h) := by
  simpa using mapM_map_eq_ok (f := id) hx

/-! ## Records -/

namespace Json.Value

@[simp]
theorem lookup_nil (key : String) : Value.lookup [] key = none := rfl

theorem member_of_lookup {ms : List (Text.Chars × Value)} {key : String} {v : Value}
    (h : lookup ms key = some v) : (Value.obj ms).member key = .ok v := by
  simp [member, h]

theorem memberOr_of_lookup {ms : List (Text.Chars × Value)} {key : String} {v : Value}
    (h : lookup ms key = some v) (default : Value) :
    (Value.obj ms).memberOr key default = .ok v := by
  simp [memberOr, h]

/-- The text of a readable integer, as a string value, reads as the integer. -/
theorem toInt_str_toString {n : Int} (h : Readable n) :
    (Value.str (Text.Chars.ofString (toString n))).toInt = .ok n := by
  have hchars : (Text.Chars.ofString (toString n)).numeralChars = (toString n).toList := by
    simp only [Text.Chars.numeralChars, Text.Chars.ofString, List.map_map]
    exact List.map_id _
  simp only [toInt, hchars, Decimal.readInt_toString h]

end Json.Value

theorem Placement.ofValue_name (room : Nat) (p : Placement) :
    Placement.ofValue room (.str (Text.Chars.ofString p.name)) = .ok p := by
  cases p <;> rfl

theorem StatRange.ofValue_toValue (room : Nat) (r : StatRange) :
    StatRange.ofValue room r.toValue = .ok r := by
  simp [StatRange.ofValue, StatRange.toValue, Value.member, StatList.ofValue_name, Value.toFloat]

/-- A tier's record reads back as the tier, with its requirement and places present or absent
as they were. -/
theorem Tier.ofValue_toValue (room : Nat) (t : Tier) : Tier.ofValue room t.toValue = .ok t := by
  obtain ⟨number, stats, levelReq, places⟩ := t
  have hstats := mapM_map_eq_ok_self fun r (_ : r ∈ stats) => StatRange.ofValue_toValue (room - 2) r
  cases levelReq <;> cases places <;>
    simp [Tier.ofValue, Tier.toValue, Value.record, Value.member, Value.memberOr, Value.elements,
      Value.toInt, optionalInt, hstats]

namespace TierMap

/-- A tier numbered above every tier of a list goes at its end. -/
theorem insertTier_of_lt {t : Tier} :
    ∀ {us : List Tier}, (∀ u ∈ us, u.number < t.number) → insertTier t us = us ++ [t]
  | [], _ => rfl
  | u :: us, h => by
    have hu := h u List.mem_cons_self
    rw [insertTier, if_neg (by omega), if_neg (by omega),
      insertTier_of_lt fun v hv => h v (List.mem_cons_of_mem u hv), List.cons_append]

/-- The record of an ascending map reads back as the map, when every tier number is readable. -/
theorem ofValue_toValue {room : Nat} {m : TierMap} (hm : m.Ascending)
    (hr : ∀ t ∈ m.tiers, Readable t.number) : TierMap.ofValue room m.toValue = .ok m := by
  simp only [TierMap.ofValue, TierMap.toValue, Value.entries, except_ok_bind, List.foldlM_map]
  refine foldlM_eq_ok_of_split TierMap.mk m.tiers fun mid t post hsplit => ?_
  have ht : t ∈ m.tiers := by simp [hsplit]
  have hlt : ∀ u ∈ mid, u.number < t.number := by
    have hpw : (mid ++ t :: post).Pairwise (·.number < ·.number) := hsplit ▸ hm
    exact fun u hu => (List.pairwise_append.1 hpw).2.2 u hu t List.mem_cons_self
  simp only [Tier.ofValue_toValue, Value.toInt_str_toString (hr t ht), except_ok_bind, ne_eq,
    not_true_eq_false, if_false, TierMap.insert, insertTier_of_lt hlt]
  rfl

end TierMap

/-- An affix's record reads back as the affix, under its id, when the id is an integer, the name
a string and the tiers ascending with readable numbers. -/
theorem AffixDef.ofValue_toValue {room : Nat} {d : AffixDef} {n : Int} {s : Text.Chars} (hid : d.id = .int n)
    (hname : d.name = .str s) (hm : d.tiers.Ascending)
    (hr : ∀ t ∈ d.tiers.tiers, Readable t.number) :
    AffixDef.ofValue room d.toValue = .ok (n, d) := by
  obtain ⟨id, placement, name, tiers⟩ := d
  subst hid hname
  simp [AffixDef.ofValue, AffixDef.toValue, asMalformed, Value.member, Value.memberOr, Value.toInt,
    Value.text, TierMap.ofValue_toValue hm hr, Placement.ofValue_name]

theorem Classification.ofValue_toValue (room : Nat) (cl : Classification) :
    Classification.ofValue room cl.toValue = .ok cl := by
  cases cl with
  | equippable slot => cases slot <;> rfl
  | _ => rfl

/-- A pool or loot pool record reads as its id, its name and its members' references and
weights, in order, when every weight is non-negative. -/
theorem WeightedRecord.ofValue_eq_ok {room : Nat} {kind : Kind} {refKey : String} (hkey : refKey ≠ "weight")
    {ms : List (Text.Chars × Value)} {id : Int} {name : Text.Chars} {members : List (Int × Int)}
    (hid : Value.lookup ms "id" = some (.int id))
    (hname : Value.lookup ms "name" = some (.str name))
    (hmembers : Value.lookup ms "members" =
      some (.arr (members.map fun m => Value.record [(refKey, .int m.1), ("weight", .int m.2)])))
    (hw : ∀ m ∈ members, 0 ≤ m.2) :
    WeightedRecord.ofValue room kind refKey (.obj ms) = .ok ⟨id, name, members⟩ := by
  have hread := mapM_map_eq_ok_self (f := fun m =>
    Value.record [(refKey, .int m.1), ("weight", .int m.2)]) (g := fun m => do
      let w ← (← m.member "weight").toInt
      if w < 0 then throw (Fault.value ("negative weight " ++ toString w))
      pure ((← (← m.member refKey).toInt), w)) fun m (hm : m ∈ members) => by
    have hnonneg := hw m hm
    simp [Value.record, Value.member, Value.toInt, hkey, Int.not_lt.2 hnonneg]
  simp only [WeightedRecord.ofValue, Value.member_of_lookup hmembers, Value.member_of_lookup hid,
    Value.memberOr_of_lookup hname, except_ok_bind, Value.elements, hread]
  rfl

/-- An item record reads as its id, classification, name, pool ids and fixed affix ids. -/
theorem ItemRecord.ofValue_eq_ok {room : Nat} {ms : List (Text.Chars × Value)} {id : Int}
    {cl : Classification} {name : Text.Chars} {pools fixed : List Int}
    (hid : Value.lookup ms "id" = some (.int id))
    (hcl : Value.lookup ms "classification" = some cl.toValue)
    (hname : Value.lookup ms "name" = some (.str name))
    (hpools : Value.lookup ms "affix_pools" = some (.arr (pools.map .int)))
    (hfixed : Value.lookup ms "fixed_affixes" = some (.arr (fixed.map .int))) :
    ItemRecord.ofValue room (.obj ms) = .ok ⟨id, cl, name, pools, fixed⟩ := by
  have hints : ∀ ns : List Int, (ns.map Value.int).mapM Value.toInt = .ok ns :=
    fun ns => mapM_map_eq_ok_self fun _ _ => rfl
  simp only [ItemRecord.ofValue, Value.member_of_lookup hid, Value.member_of_lookup hcl,
    Value.memberOr_of_lookup hname, Value.memberOr_of_lookup hpools,
    Value.memberOr_of_lookup hfixed,
    except_ok_bind, Classification.ofValue_toValue, Value.elements, hints]
  rfl

/-! ## Linking -/

theorem resolve_of_find? {reg : Registry} {owner target : Kind} {ownerId id : Int} {s : Nat}
    (h : reg.find? id = some s) : resolve reg owner ownerId target id = .ok s := by
  simp [resolve, h]

/-- Linking a pool whose referenced ids are all registered. -/
theorem WeightedRecord.linkPool_of_find? {r : WeightedRecord} {reg : Registry}
    {slotOf : Int → Nat} (h : ∀ m ∈ r.members, reg.find? m.1 = some (slotOf m.1)) :
    r.linkPool reg =
      .ok ⟨.int r.id, .str r.name, r.members.map fun m => (⟨slotOf m.1⟩, .int m.2)⟩ := by
  have hlink := mapM_eq_ok_map (h := fun m => ((⟨slotOf m.1⟩ : Ref .affix), Value.int m.2))
    (g := fun m => do pure ((⟨← resolve reg .affixPool r.id .affix m.1⟩ : Ref .affix), .int m.2))
    fun m (hm : m ∈ r.members) => by simp [resolve_of_find? (h m hm)]
  unfold WeightedRecord.linkPool
  rw [hlink]
  rfl

/-- Linking a loot pool whose referenced ids are all registered. -/
theorem WeightedRecord.linkLootPool_of_find? {r : WeightedRecord} {reg : Registry}
    {slotOf : Int → Nat} (h : ∀ m ∈ r.members, reg.find? m.1 = some (slotOf m.1)) :
    r.linkLootPool reg =
      .ok ⟨.int r.id, .str r.name, r.members.map fun m => (⟨slotOf m.1⟩, .int m.2)⟩ := by
  have hlink := mapM_eq_ok_map (h := fun m => ((⟨slotOf m.1⟩ : Ref .item), Value.int m.2))
    (g := fun m => do pure ((⟨← resolve reg .lootPool r.id .item m.1⟩ : Ref .item), .int m.2))
    fun m (hm : m ∈ r.members) => by simp [resolve_of_find? (h m hm)]
  unfold WeightedRecord.linkLootPool
  rw [hlink]
  rfl

/-- Linking an item whose pools and fixed affixes are all registered. -/
theorem ItemRecord.link_of_find? {r : ItemRecord} {affixes pools : Registry}
    {affixSlot poolSlot : Int → Nat} (hp : ∀ p ∈ r.pools, pools.find? p = some (poolSlot p))
    (hf : ∀ a ∈ r.fixed, affixes.find? a = some (affixSlot a)) :
    r.link affixes pools = .ok ⟨.int r.id, r.classification, .str r.name,
      r.pools.map fun p => ⟨poolSlot p⟩, r.fixed.map fun a => ⟨affixSlot a⟩⟩ := by
  have hps := mapM_eq_ok_map (h := fun p => (⟨poolSlot p⟩ : Ref .affixPool))
    (g := fun p => do pure (⟨← resolve pools .item r.id .affixPool p⟩ : Ref .affixPool))
    fun p (hmem : p ∈ r.pools) => by simp [resolve_of_find? (hp p hmem)]
  have hfs := mapM_eq_ok_map (h := fun a => (⟨affixSlot a⟩ : Ref .affix))
    (g := fun a => do pure (⟨← resolve affixes .item r.id .affix a⟩ : Ref .affix))
    fun a (hmem : a ∈ r.fixed) => by simp [resolve_of_find? (hf a hmem)]
  unfold ItemRecord.link
  rw [hps, except_ok_bind, hfs]
  rfl

/-! ## Records that can be written -/

namespace Json

theorem plainItems_iff : ∀ {vs : List Value}, plainItems vs = true ↔ ∀ v ∈ vs, v.plain = true
  | [] => by simp [plainItems]
  | v :: vs => by simp [plainItems, plainItems_iff]

theorem plainMembers_iff : ∀ {ms : List (Chars × Value)},
    plainMembers ms = true ↔ ∀ m ∈ ms, (charsOf? m.1.points).isSome ∧ m.2.plain = true
  | [] => by simp [plainMembers]
  | (k, v) :: ms => by simp [plainMembers, plainMembers_iff, and_assoc]

theorem depthItems_le_iff {n : Nat} :
    ∀ {vs : List Value}, depthItems vs ≤ n ↔ ∀ v ∈ vs, v.depth ≤ n
  | [] => by simp [depthItems]
  | v :: vs => by simp [depthItems, depthItems_le_iff]

theorem depthMembers_le_iff {n : Nat} :
    ∀ {ms : List (Chars × Value)}, depthMembers ms ≤ n ↔ ∀ m ∈ ms, m.2.depth ≤ n
  | [] => by simp [depthMembers]
  | (k, v) :: ms => by simp [depthMembers, depthMembers_le_iff]

@[simp]
theorem plain_int {n : Int} : (Value.int n).plain = true ↔ Readable n := by
  simp [Value.plain, Readable]

@[simp]
theorem charsOf?_ofString (t : String) : (charsOf? (Chars.ofString t).points).isSome := by
  simp [Chars.ofString, charsOf?_map_char]

end Json

/-- A stat range's record can be written. -/
theorem StatRange.plain_toValue (r : StatRange) :
    r.toValue.plain = true ∧ r.toValue.depth ≤ 1 := by
  simp [StatRange.toValue, Value.plain, plainMembers, Value.depth, depthMembers,
    Text.Chars.ofString_inj]

/-- A tier whose integers all have readable text. -/
def Tier.Readable (t : Tier) : Prop :=
  Decimal.Readable t.number ∧ (∀ n ∈ t.levelReq, Decimal.Readable n) ∧
    ∀ n ∈ t.places, Decimal.Readable n

/-- The record of a tier with readable integers can be written. -/
theorem Tier.plain_toValue {t : Tier} (ht : t.Readable) :
    t.toValue.plain = true ∧ t.toValue.depth ≤ 3 := by
  obtain ⟨number, stats, levelReq, places⟩ := t
  obtain ⟨hn, hl, hp⟩ := ht
  have hstats : plainItems (stats.map StatRange.toValue) = true ∧
      depthItems (stats.map StatRange.toValue) ≤ 1 := by
    simp only [plainItems_iff, depthItems_le_iff, List.mem_map, forall_exists_index, and_imp,
      forall_apply_eq_imp_iff₂]
    exact ⟨fun r _ => (StatRange.plain_toValue r).1, fun r _ => (StatRange.plain_toValue r).2⟩
  cases levelReq <;> cases places <;>
    simp_all [Tier.toValue, Value.record, Value.plain, plainMembers, Value.depth, depthMembers,
      Text.Chars.ofString_inj, Decimal.Readable] <;> omega

/-- The record of an ascending tier map with readable integers can be written: its keys, the
tiers' numbers as text, are distinct. -/
theorem TierMap.plain_toValue {m : TierMap} (hm : m.Ascending)
    (ht : ∀ t ∈ m.tiers, t.Readable) : m.toValue.plain = true ∧ m.toValue.depth ≤ 4 := by
  have hkeys : (m.tiers.map fun t => Text.Chars.ofString (toString t.number)).Nodup := by
    refine List.pairwise_map.2 (hm.imp_of_mem fun ha hb hlt heq => ?_)
    have := Decimal.eq_of_toString_eq (ht _ ha).1 (ht _ hb).1 (Text.Chars.ofString_inj.1 heq)
    omega
  simp only [TierMap.toValue, Value.plain, Value.depth, List.map_map, Function.comp_def]
  refine ⟨?_, ?_⟩
  · simp only [hkeys, decide_true, Bool.true_and, plainMembers_iff, List.mem_map]
    rintro _ ⟨t, htm, rfl⟩
    exact ⟨charsOf?_ofString _, (Tier.plain_toValue (ht t htm)).1⟩
  · have : depthMembers (m.tiers.map fun t =>
        (Text.Chars.ofString (toString t.number), t.toValue)) ≤ 3 := by
      simp only [depthMembers_le_iff, List.mem_map]
      rintro _ ⟨t, htm, rfl⟩
      exact (Tier.plain_toValue (ht t htm)).2
    omega

/-- The record of a weighted member with readable integers can be written. -/
theorem Json.plain_member {refKey : String} (hkey : refKey ≠ "weight") {key n : Int}
    (hk : Readable key) (hn : Readable n) :
    let v := Value.obj [(Chars.ofString refKey, .int key), (Chars.ofString "weight", .int n)]
    v.plain ∧ v.depth ≤ 1 := by
  simp [Value.plain, plainMembers, Value.depth, depthMembers, Text.Chars.ofString_inj, hkey]
  exact ⟨hk, hn⟩

/-- A classification's record can be written. -/
theorem Classification.plain_toValue (cl : Classification) :
    cl.toValue.plain = true ∧ cl.toValue.depth ≤ 1 := by
  cases cl with
  | equippable slot =>
    simp [Classification.toValue, Value.record, Value.plain, plainMembers, Value.depth,
      depthMembers]
  | _ => simp [Classification.toValue, Value.plain, Value.depth]

end Loot
