import Loot.Proofs.Quoting
import Loot.Catalog.Load
import Mathlib

/-!
# How loading records can fail

The readers turn the failures they expect into a malformed-record failure, and linking and
registering fail with load failures of their own. Three failures pass through unwrapped
(`Fault.Escapes`): an infinite double read as an integer, an integer too large for a double read as
one, and a value too deep to be quoted in a message. These are the only ways loading fails
(`loadKind_fails_with_load_overflow_or_quoting`).
-/

namespace Loot

open Loot.Json Loot.Text

/-! ## The failures of reading -/

namespace Fault

/-- A plain failure of one of the classes `cls`. -/
def OfClass (cls : List Builtin) : Fault → Prop
  | .builtin c _ => c ∈ cls
  | _ => False

/-- The two overflows of reading a number: an infinite double read as an integer, and an integer
too large for any double read as a double. -/
def IsNumberOverflow (e : Fault) : Prop :=
  e = .builtin .overflow "cannot convert float infinity to integer" ∨ e = intTooLarge

/-- The failures that no reader expects: the two number overflows, and a value nested too deep to
be quoted. -/
def Escapes (e : Fault) : Prop := e.IsNumberOverflow ∨ e = reprTooDeep

/-- A failure of reading a record: a plain failure of one of the classes `cls`, or one that no
reader expects. -/
def ReadFault (cls : List Builtin) (e : Fault) : Prop := e.OfClass cls ∨ e.Escapes

/-- What loading can fail with: a load failure, a failure that no reader expects, or an id
without a decimal text for the message of a malformed record. -/
def LoadOrEscape (e : Fault) : Prop := (∃ f, e = .load f) ∨ e.Escapes ∨ e = textTooLong

theorem ReadFault.mono {cls cls' : List Builtin} (h : ∀ c ∈ cls, c ∈ cls') {e : Fault}
    (he : e.ReadFault cls) : e.ReadFault cls' := by
  rcases he with hc | hesc
  · left
    cases e with
    | builtin c m => exact h c hc
    | _ => exact hc.elim
  · exact .inr hesc

@[simp]
theorem readFault_builtin (cls : List Builtin) (c : Builtin) (m : Chars) (h : c ∈ cls) :
    (builtin c m).ReadFault cls :=
  .inl h

@[simp]
theorem readFault_plain (cls : List Builtin) (c : Builtin) (m : String) (h : c ∈ cls) :
    (plain c m).ReadFault cls :=
  .inl h

@[simp]
theorem readFault_intTooLarge (cls : List Builtin) : intTooLarge.ReadFault cls :=
  .inr (.inl (.inr rfl))

@[simp]
theorem loadOrEscape_load (f : LoadFault) : (load f).LoadOrEscape :=
  .inl ⟨f, rfl⟩

/-- A failure of quoting is one a reader of values expects, or escapes it. -/
theorem readFault_of_quoteFault {e : Fault} (h : Json.QuoteFault e) : e.ReadFault [.value] := by
  rcases h with rfl | rfl
  · exact .inr (.inr rfl)
  · exact .inl (List.mem_singleton_self _)

/-- A failure of quoting is one that loading can fail with. -/
theorem loadOrEscape_of_quoteFault {e : Fault} (h : Json.QuoteFault e) : e.LoadOrEscape := by
  rcases h with rfl | rfl
  · exact .inr (.inl (.inr rfl))
  · exact .inr (.inr rfl)

end Fault

open Fault

/-- A reader that fails only as the classes `cls` allow also fails only as any wider list of
classes allows. -/
theorem FailsOnly.widen {α : Type} {cls cls' : List Builtin} {x : Except Fault α}
    (hx : FailsOnly (ReadFault cls) x) (h : ∀ c ∈ cls, c ∈ cls') : FailsOnly (ReadFault cls') x :=
  hx.mono fun _ => ReadFault.mono h

/-- Reading `x` fails only as a reader expecting `expected` expects, or with a failure that no
reader expects; turning its expected failures into malformed-record failures, whose message
quotes the id, leaves load failures, unexpected failures and the failures of quoting. -/
theorem failsOnly_asMalformed {α : Type} {room : Nat} {kind : Kind} {expected : List Builtin}
    {raw : Value} {x : Except Fault α} (hx : FailsOnly (ReadFault expected) x) :
    FailsOnly LoadOrEscape (asMalformed room kind expected raw x) := by
  intro e he
  cases hxe : x with
  | ok a =>
    rw [hxe] at he
    cases he
  | error e' =>
    rw [hxe] at he
    have hread := hx e' hxe
    cases e' with
    | builtin cls m =>
      rw [Loot.asMalformed] at he
      split at he
      · -- the message quotes the id: either that fails, or the failure is a load failure
        refine FailsOnly.bind ((failsOnly_formatted room (recordId raw)).mono
          fun _ => loadOrEscape_of_quoteFault) (fun _ _ => ?_) e he
        simp
      · next hnot =>
        cases he
        rcases hread with hcls | hesc
        · exact absurd (List.elem_eq_true_of_mem hcls) hnot
        · exact .inr (.inl hesc)
    | _ =>
      cases he
      rcases hread with hcls | hesc
      · exact hcls.elim
      · exact .inr (.inl hesc)

/-! ## Reading values -/

section Values

theorem readFault_member (v : Value) (key : String) :
    FailsOnly (ReadFault [.key, .type]) (v.member key) := by
  unfold Value.member
  split
  · split <;> simp [missingKey]
  all_goals simp [Fault.type]

theorem readFault_memberOr (v : Value) (key : String) (d : Value) :
    FailsOnly (ReadFault [.attribute]) (v.memberOr key d) := by
  unfold Value.memberOr
  split <;> simp [noAttribute]

/-- An object answers every member with a default. -/
theorem memberOr_obj (ms : List (Chars × Value)) (key : String) (d : Value) :
    (Value.obj ms).memberOr key d = .ok ((Value.lookup ms key).getD d) := rfl

/-- Only an object has members. -/
theorem eq_obj_of_member_eq_ok {v x : Value} {key : String} (h : v.member key = .ok x) :
    ∃ ms, v = .obj ms := by
  cases v with
  | obj ms => exact ⟨ms, rfl⟩
  | _ => cases h

theorem readFault_entries (v : Value) : FailsOnly (ReadFault [.attribute]) v.entries := by
  cases v <;> simp [Value.entries, noAttribute]

theorem readFault_elements (v : Value) : FailsOnly (ReadFault [.type]) v.elements := by
  cases v <;> simp [Value.elements, Fault.type]

theorem readFault_truncFloat (x : Float) : FailsOnly (ReadFault [.value]) (Num.truncFloat x) := by
  unfold Num.truncFloat
  split
  · simp [Fault.value]
  · simp [ReadFault, Escapes, IsNumberOverflow]
  · simp

theorem readFault_intToFloat (n : Int) : FailsOnly (ReadFault []) (Num.intToFloat n) := by
  dsimp only [Num.intToFloat]
  split <;> simp

/-- Reading an integer fails as a value or kind failure, or overflows on an infinite double. -/
theorem readFault_toInt (v : Value) : FailsOnly (ReadFault [.value, .type]) v.toInt := by
  cases v with
  | float x => exact (readFault_truncFloat x).widen (by decide)
  | str t =>
    dsimp only [Value.toInt]
    split <;> simp [Fault.value, tooManyDigits]
  | _ => simp [Value.toInt, Fault.type]

/-- Reading a double fails as a value or kind failure, or overflows on a huge integer. -/
theorem readFault_toFloat (v : Value) : FailsOnly (ReadFault [.value, .type]) v.toFloat := by
  cases v with
  | int n => exact (readFault_intToFloat n).widen (by decide)
  | str t =>
    dsimp only [Value.toFloat]
    split <;> simp [Fault.value]
  | _ => simp [Value.toFloat, Fault.type]

end Values

/-! ## Reading records -/

section Records

theorem readFault_literal (room : Nat) (v : Value) :
    FailsOnly (ReadFault [.value]) (v.literal room) :=
  (failsOnly_literal room v).mono fun _ => readFault_of_quoteFault

theorem readFault_text (room : Nat) (v : Value) : FailsOnly (ReadFault [.value]) (v.text room) :=
  (failsOnly_text room v).mono fun _ => readFault_of_quoteFault

/-- Reading a member of an enumeration fails only as a value failure, or when its literal cannot
be quoted. -/
theorem readFault_enumOf {α : Type} (cls : String) (all : List α) (name : α → String)
    (room : Nat) (v : Value) : FailsOnly (ReadFault [.value]) (v.enumOf cls all name room) := by
  unfold Value.enumOf
  split
  · simp
  · exact FailsOnly.bind (readFault_literal _ v) fun _ _ => by simp [Fault.value]

theorem readFault_classificationOfValue (room : Nat) (v : Value) :
    FailsOnly (ReadFault [.value]) (Classification.ofValue room v) := by
  unfold Classification.ofValue
  split
  · refine FailsOnly.bind (readFault_enumOf _ _ _ _ _) fun t _ => ?_
    cases t <;> simp [Fault.value]
  · refine FailsOnly.bind (readFault_enumOf _ _ _ _ _) fun t _ => ?_
    cases t
    · simp
    · exact FailsOnly.map (readFault_enumOf _ _ _ _ _)
    · simp
  · exact FailsOnly.bind (readFault_literal _ _) fun _ _ => by simp [Fault.value]

/-- The classes a reader expects of reading a tier or a stat range. -/
abbrev tierClasses : List Builtin := [.key, .value, .type, .attribute]

theorem readFault_statRangeOfValue (room : Nat) (raw : Value) :
    FailsOnly (ReadFault tierClasses) (StatRange.ofValue room raw) := by
  have hmember : ∀ key, FailsOnly (ReadFault tierClasses) (raw.member key) := fun key =>
    (readFault_member raw key).widen (by decide)
  have hfloat : ∀ v : Value, FailsOnly (ReadFault tierClasses) v.toFloat := fun v =>
    (readFault_toFloat v).widen (by decide)
  unfold StatRange.ofValue
  refine FailsOnly.bind (hmember "stat") fun v _ => ?_
  refine FailsOnly.bind ((readFault_enumOf _ _ _ room v).widen (by decide))
    fun _ _ => ?_
  refine FailsOnly.bind (hmember "lower_bound") fun v _ => FailsOnly.bind (hfloat v) fun _ _ => ?_
  exact FailsOnly.bind (hmember "upper_bound") fun v _ => FailsOnly.bind (hfloat v) fun _ _ =>
    FailsOnly.pure _

/-- Reading a tier fails only as an affix reader expects, or with an overflow. -/
theorem readFault_tierOfValue (room : Nat) (raw : Value) :
    FailsOnly (ReadFault tierClasses) (Tier.ofValue room raw) := by
  have hmember : ∀ key, FailsOnly (ReadFault tierClasses) (raw.member key) := fun key =>
    (readFault_member raw key).widen (by decide)
  have hmemberOr : ∀ key, FailsOnly (ReadFault tierClasses) (raw.memberOr key .null) := fun key =>
    (readFault_memberOr raw key .null).widen (by decide)
  have hint : ∀ v : Value, FailsOnly (ReadFault tierClasses) v.toInt := fun v =>
    (readFault_toInt v).widen (by decide)
  have hoptional : ∀ v, FailsOnly (ReadFault tierClasses) (optionalInt v) := by
    intro v
    cases v
    case null => simp [optionalInt]
    all_goals exact FailsOnly.map (hint _)
  unfold Tier.ofValue
  refine FailsOnly.bind (hmemberOr "item_level_req") fun levelReq _ => ?_
  refine FailsOnly.bind (hmemberOr "precision_places") fun places _ => ?_
  refine FailsOnly.bind (hmember "tier") fun v _ => FailsOnly.bind (hint v) fun _ _ => ?_
  refine FailsOnly.bind (hmember "stats") fun v _ =>
    FailsOnly.bind ((readFault_elements v).widen (by decide))
      fun rs _ => FailsOnly.bind (FailsOnly.mapM fun r _ => readFault_statRangeOfValue _ r)
        fun _ _ => ?_
  exact FailsOnly.bind (hoptional levelReq) fun _ _ =>
    FailsOnly.bind (hoptional places) fun _ _ => FailsOnly.pure _

/-- Reading the tiers of an affix fails only as an affix reader expects, or with an overflow:
each tier is read, its key read as an integer, and a key that is not the tier's number is a value
failure. -/
theorem readFault_tierMapOfValue (room : Nat) (raw : Value) :
    FailsOnly (ReadFault tierClasses) (TierMap.ofValue room raw) := by
  unfold TierMap.ofValue
  refine FailsOnly.bind ((readFault_entries raw).widen (by decide))
    fun entries _ => FailsOnly.foldlM _ fun m entry _ => ?_
  refine FailsOnly.bind (readFault_tierOfValue room entry.2) fun t _ => ?_
  refine FailsOnly.bind ((readFault_toInt _).widen (by decide))
    fun key _ => ?_
  -- a key that is not the tier's number fails as a value failure, before the tier is stored
  dsimp only
  split
  · exact FailsOnly.bind (failsOnly_error_iff.2 (readFault_builtin _ _ _ (by decide)))
      fun _ _ => FailsOnly.pure _
  · exact FailsOnly.pure _

/-- Reading an affix record fails only with a load failure, a failure that no reader expects, or
a failure to quote its id. -/
theorem loadOrEscape_affixDefOfValue (room : Nat) (raw : Value) :
    FailsOnly LoadOrEscape (AffixDef.ofValue room raw) := by
  have hmember : ∀ key, FailsOnly (ReadFault affixExpected) (raw.member key) := fun key =>
    (readFault_member raw key).widen (by decide)
  unfold AffixDef.ofValue
  refine failsOnly_asMalformed ?_
  refine FailsOnly.bind (hmember "tiers") fun v _ =>
    FailsOnly.bind (readFault_tierMapOfValue _ v) fun _ _ => ?_
  refine FailsOnly.bind (hmember "id") fun v _ =>
    FailsOnly.bind ((readFault_toInt v).widen (by decide)) fun _ _ => ?_
  refine FailsOnly.bind (hmember "placement") fun v _ =>
    FailsOnly.bind ((readFault_enumOf _ _ _ _ v).widen (by decide))
      fun _ _ => ?_
  exact FailsOnly.bind ((readFault_memberOr raw "name" _).widen (by decide))
    fun v _ => FailsOnly.bind ((readFault_text _ v).widen (by decide))
      fun _ _ => FailsOnly.pure _

section Weighted

variable (raw : Value)

theorem readFault_member_record (key : String) :
    FailsOnly (ReadFault recordExpected) (raw.member key) :=
  (readFault_member raw key).widen (by decide)

theorem readFault_toInt_record (v : Value) : FailsOnly (ReadFault recordExpected) v.toInt :=
  (readFault_toInt v).widen (by decide)

theorem readFault_elements_record (v : Value) : FailsOnly (ReadFault recordExpected) v.elements :=
  (readFault_elements v).widen (by decide)

theorem readFault_text_record (room : Nat) (v : Value) :
    FailsOnly (ReadFault recordExpected) (v.text room) :=
  (readFault_text room v).widen (by decide)

/-- A record reader asks for a member with a default only of a record that had a member before,
an object, and an object always answers. -/
theorem readFault_memberOr_record {key₀ : String} {x : Value} (h : raw.member key₀ = .ok x)
    (key : String) (d : Value) : FailsOnly (ReadFault recordExpected) (raw.memberOr key d) := by
  obtain ⟨ms, rfl⟩ := eq_obj_of_member_eq_ok h
  rw [memberOr_obj]
  simp

end Weighted

/-- Reading a pool or loot pool record fails only with a load failure, a failure that no reader
expects, or a failure to quote its id. -/
theorem loadOrEscape_weightedRecordOfValue (room : Nat) (kind : Kind) (refKey : String)
    (raw : Value) : FailsOnly LoadOrEscape (WeightedRecord.ofValue room kind refKey raw) := by
  have hmember : ∀ m : Value, FailsOnly (ReadFault recordExpected) (do
      let w ← (← m.member "weight").toInt
      if w < 0 then throw (Fault.value ("negative weight " ++ toString w))
      pure ((← (← m.member refKey).toInt), w)) := by
    intro m
    refine FailsOnly.bind (readFault_member_record m "weight") fun v _ =>
      FailsOnly.bind (readFault_toInt_record v) fun w _ => ?_
    dsimp only
    split
    · exact FailsOnly.bind (failsOnly_error_iff.2 (readFault_plain _ _ _ (by decide)))
        fun _ h => by cases h
    · exact FailsOnly.bind (readFault_member_record m refKey) fun v _ =>
        FailsOnly.bind (readFault_toInt_record v) fun _ _ => FailsOnly.pure _
  unfold WeightedRecord.ofValue
  refine failsOnly_asMalformed ?_
  refine FailsOnly.bind (readFault_member_record raw "members") fun v hv =>
    FailsOnly.bind (readFault_elements_record v) fun ms _ =>
      FailsOnly.bind (FailsOnly.mapM fun m _ => hmember m) fun _ _ => ?_
  refine FailsOnly.bind (readFault_member_record raw "id") fun v _ =>
    FailsOnly.bind (readFault_toInt_record v) fun _ _ => ?_
  exact FailsOnly.bind (readFault_memberOr_record raw hv "name" _) fun v _ =>
    FailsOnly.bind (readFault_text_record _ v) fun _ _ => FailsOnly.pure _

/-- Reading an item record fails only with a load failure, a failure that no reader expects, or
a failure to quote its id. -/
theorem loadOrEscape_itemRecordOfValue (room : Nat) (raw : Value) :
    FailsOnly LoadOrEscape (ItemRecord.ofValue room raw) := by
  unfold ItemRecord.ofValue
  refine failsOnly_asMalformed ?_
  refine FailsOnly.bind (readFault_member_record raw "id") fun v hv =>
    FailsOnly.bind (readFault_toInt_record v) fun _ _ => ?_
  refine FailsOnly.bind (readFault_member_record raw "classification") fun v _ =>
    FailsOnly.bind ((readFault_classificationOfValue _ v).widen (by decide))
      fun _ _ => ?_
  refine FailsOnly.bind (readFault_memberOr_record raw hv "name" _) fun v _ =>
    FailsOnly.bind (readFault_text_record _ v) fun _ _ => ?_
  -- the pool ids, then the fixed affix ids, each list read element by element
  refine FailsOnly.bind (readFault_memberOr_record raw hv "affix_pools" _) fun v _ =>
    FailsOnly.bind (readFault_elements_record v) fun _ _ =>
      FailsOnly.bind (FailsOnly.mapM fun v _ => readFault_toInt_record v) fun _ _ => ?_
  exact FailsOnly.bind (readFault_memberOr_record raw hv "fixed_affixes" _) fun v _ =>
    FailsOnly.bind (readFault_elements_record v) fun _ _ =>
      FailsOnly.bind (FailsOnly.mapM fun v _ => readFault_toInt_record v) fun _ _ =>
        FailsOnly.pure _

end Records

/-! ## Linking and registering -/

section Linking

theorem loadOrEscape_resolve (reg : Registry) (owner : Kind) (ownerId : Int) (target : Kind)
    (id : Int) : FailsOnly LoadOrEscape (resolve reg owner ownerId target id) := by
  unfold resolve
  split <;> simp

theorem loadOrEscape_register (k : Kind) (reg : Registry) (id : Int) (slot : Nat) :
    FailsOnly LoadOrEscape (Catalog.register k reg id slot) := by
  unfold Catalog.register
  split <;> simp

theorem loadOrEscape_linkPool (r : WeightedRecord) (affixes : Registry) :
    FailsOnly LoadOrEscape (r.linkPool affixes) :=
  FailsOnly.bind (FailsOnly.mapM fun _ _ =>
    FailsOnly.bind (loadOrEscape_resolve _ _ _ _ _) fun _ _ => FailsOnly.pure _)
    fun _ _ => FailsOnly.pure _

theorem loadOrEscape_linkLootPool (r : WeightedRecord) (items : Registry) :
    FailsOnly LoadOrEscape (r.linkLootPool items) :=
  FailsOnly.bind (FailsOnly.mapM fun _ _ =>
    FailsOnly.bind (loadOrEscape_resolve _ _ _ _ _) fun _ _ => FailsOnly.pure _)
    fun _ _ => FailsOnly.pure _

theorem loadOrEscape_link (r : ItemRecord) (affixes pools : Registry) :
    FailsOnly LoadOrEscape (r.link affixes pools) :=
  FailsOnly.bind (FailsOnly.mapM fun _ _ =>
    FailsOnly.bind (loadOrEscape_resolve _ _ _ _ _) fun _ _ => FailsOnly.pure _) fun _ _ =>
  FailsOnly.bind (FailsOnly.mapM fun _ _ =>
    FailsOnly.bind (loadOrEscape_resolve _ _ _ _ _) fun _ _ => FailsOnly.pure _) fun _ _ =>
  FailsOnly.pure _

end Linking

/-! ## Loading a registry -/

section Loading

variable (c : Catalog) (room : Nat)

theorem loadOrEscape_loadAffixes (raws : List Value) :
    FailsOnly LoadOrEscape (c.loadAffixes room raws) := by
  unfold Catalog.loadAffixes
  refine FailsOnly.foldlM _ fun acc raw _ =>
    FailsOnly.bind (loadOrEscape_affixDefOfValue _ raw) fun p _ => ?_
  obtain ⟨id, d⟩ := p
  exact FailsOnly.bind (loadOrEscape_register _ _ _ _) fun _ _ => FailsOnly.pure _

theorem loadOrEscape_loadPools (affixes : Registry) (raws : List Value) :
    FailsOnly LoadOrEscape (c.loadPools room affixes raws) := by
  unfold Catalog.loadPools
  refine FailsOnly.bind (FailsOnly.mapM fun raw _ => loadOrEscape_weightedRecordOfValue _ _ _ raw)
    fun records _ => FailsOnly.foldlM _ fun acc r _ =>
      FailsOnly.bind (loadOrEscape_linkPool r affixes) fun d _ => ?_
  exact FailsOnly.bind (loadOrEscape_register _ _ _ _) fun _ _ => FailsOnly.pure _

theorem loadOrEscape_loadItems (affixes pools : Registry) (raws : List Value) :
    FailsOnly LoadOrEscape (c.loadItems room affixes pools raws) := by
  unfold Catalog.loadItems
  refine FailsOnly.bind (FailsOnly.mapM fun raw _ => loadOrEscape_itemRecordOfValue _ raw)
    fun records _ => FailsOnly.foldlM _ fun acc r _ =>
      FailsOnly.bind (loadOrEscape_link r affixes pools) fun d _ => ?_
  exact FailsOnly.bind (loadOrEscape_register _ _ _ _) fun _ _ => FailsOnly.pure _

theorem loadOrEscape_loadLootPools (items : Registry) (raws : List Value) :
    FailsOnly LoadOrEscape (c.loadLootPools room items raws) := by
  unfold Catalog.loadLootPools
  refine FailsOnly.bind (FailsOnly.mapM fun raw _ => loadOrEscape_weightedRecordOfValue _ _ _ raw)
    fun records _ => FailsOnly.foldlM _ fun acc r _ =>
      FailsOnly.bind (loadOrEscape_linkLootPool r items) fun d _ => ?_
  exact FailsOnly.bind (loadOrEscape_register _ _ _ _) fun _ _ => FailsOnly.pure _

theorem loadOrEscape_loadKind (k : Kind) (raws : List Value) :
    FailsOnly LoadOrEscape (c.loadKind room k raws) := by
  unfold Catalog.loadKind
  dsimp only
  -- each kind's records are loaded, and the registry loaded is installed
  cases k
  · exact FailsOnly.bind (loadOrEscape_loadAffixes c room raws) fun p _ => by
      cases p
      exact FailsOnly.pure _
  · exact FailsOnly.bind (loadOrEscape_loadPools c room _ raws) fun p _ => by
      cases p
      exact FailsOnly.pure _
  · exact FailsOnly.bind (loadOrEscape_loadItems c room _ _ raws) fun p _ => by
      cases p
      exact FailsOnly.pure _
  · exact FailsOnly.bind (loadOrEscape_loadLootPools c room _ raws) fun p _ => by
      cases p
      exact FailsOnly.pure _

end Loading

/-- Loading the records of any kind, whatever their shape, with any budget of calls, against the
registries of any catalog, fails only with a load failure, with one of the two number overflows
(an infinite double read as an integer, an integer too large for any double read as a double), or
with a failure of quoting: a value nested deeper than the calls left, or the id of a malformed
record that has no decimal text. -/
theorem loadKind_fails_with_load_overflow_or_quoting (room : Nat) (c : Catalog) (k : Kind)
    (raws : List Value) (e : Fault) (h : c.loadKind room k raws = .error e) :
    (∃ f, e = .load f) ∨ e = .builtin .overflow "cannot convert float infinity to integer" ∨
      e = Fault.intTooLarge ∨ e = Fault.reprTooDeep ∨ e = Fault.textTooLong := by
  rcases loadOrEscape_loadKind c room k raws e h with hload | (((hinf | hbig) | hdeep) | hlong)
  · exact .inl hload
  · exact .inr (.inl hinf)
  · exact .inr (.inr (.inl hbig))
  · exact .inr (.inr (.inr (.inl hdeep)))
  · exact .inr (.inr (.inr (.inr hlong)))

/-- An affix record with the id 1, placed first, without tiers. -/
def sampleAffixRecord : Value :=
  .record [("id", .int 1), ("placement", .str (Chars.ofString "Prefix")), ("tiers", .record [])]

/-- Two affix records with one id fail to load as a duplicate, a load failure. -/
theorem duplicate_affix_load_fails :
    Catalog.empty.loadKind Catalog.requestRoom .affix [sampleAffixRecord, sampleAffixRecord] =
        .error (.load (.duplicate .affix 1)) ∧
      ((∃ f, Fault.load (.duplicate .affix 1) = .load f) ∨
        Fault.load (.duplicate .affix 1) =
          .builtin .overflow "cannot convert float infinity to integer" ∨
        Fault.load (.duplicate .affix 1) = Fault.intTooLarge ∨
        Fault.load (.duplicate .affix 1) = Fault.reprTooDeep ∨
        Fault.load (.duplicate .affix 1) = Fault.textTooLong) := by
  have h : Catalog.empty.loadKind Catalog.requestRoom .affix [sampleAffixRecord, sampleAffixRecord] =
      .error (.load (.duplicate .affix 1)) := by cbv
  exact ⟨h, loadKind_fails_with_load_overflow_or_quoting _ _ _ _ _ h⟩

/-- An affix record whose id is an infinite double fails to load with the overflow of reading the
id as an integer, which is no load failure. -/
theorem infinite_id_escapes_load :
    Catalog.empty.loadKind Catalog.requestRoom .affix [.record [("id", .float Decimal.infinity),
        ("placement", .str (Chars.ofString "Prefix")), ("tiers", .record [])]] =
      .error (.builtin .overflow "cannot convert float infinity to integer") := by
  cbv

end Loot
