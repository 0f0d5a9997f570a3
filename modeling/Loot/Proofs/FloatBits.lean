import Loot.Proofs.FloatRounding
import Loot.Decimal.Reading

/-!
# The bits of a double

`Binary.ofFloat` reads a 64-bit pattern as sign, exponent and fraction, and the core model's `pack`
writes canonical parts as a pattern; the two agree (`Binary.ofFloat_pack`, `model_pack_unpack`).
So the model's arithmetic can be read on unpacked values: adding a zero to a double that is not a
zero gives it back (`float_zero_add`), and a double that is not a NaN equals itself.
-/

open Float.Model Float.Model.UnpackedFloat

namespace Loot.Decimal

/-- The bits of the double `(-1)^neg · m · 2^q`, as a number. -/
def bitsOf (neg : Bool) (m : Nat) (q : Int) : Nat :=
  (if neg then 2 ^ 63 else 0) + if 2 ^ 52 ≤ m then (q + 1075).toNat * 2 ^ 52 + (m - 2 ^ 52) else m

/-- Whether a sign is negative. -/
def isNeg : Sign → Bool
  | .negative => true
  | .positive => false

theorem toNat_packComponents (s : Sign) (e : BitVec 11) (f : BitVec 52) :
    (packComponents Format.binary64 s e f).toNat =
      (if isNeg s then 2 ^ 63 else 0) + e.toNat * 2 ^ 52 + f.toNat := by
  unfold packComponents
  rw [BitVec.toNat_append, BitVec.toNat_append, ← Nat.shiftLeft_add_eq_or_of_lt f.isLt,
    ← Nat.shiftLeft_add_eq_or_of_lt e.isLt, Nat.shiftLeft_eq, Nat.shiftLeft_eq]
  cases s
  · simp [Sign.toBitVec, isNeg]; ring
  · simp [Sign.toBitVec, isNeg]

theorem log2_eq_52 {m : Nat} (hlo : 2 ^ 52 ≤ m) (hhi : m < 2 ^ 53) : m.log2 = 52 :=
  (Nat.log2_eq_iff (by omega)).2 ⟨hlo, hhi⟩

theorem log2_lt_52 {m : Nat} (hm : 0 < m) (hhi : m < 2 ^ 52) : m.log2 < 52 :=
  (Nat.log2_lt hm.ne').2 hhi

/-- Packing the parts of a finite double gives its bits. -/
theorem toNat_pack_finite {s : Sign} {m : Nat} {q : Int} {hm : 0 < m} (hc : Canonical m q) :
    (UnpackedFloat.pack Format.binary64 (.finite s m q hm)).toNat = bitsOf (isNeg s) m q := by
  have hq := hc.le_max
  have hq' := hc.min_le
  have hlt := hc.lt
  have hb : ¬ 2 ^ 11 ≤ (q + ((2 ^ (11 - 1) - 1 : Nat) : Int) + ((52 : Nat) : Int)).toNat + 1 := by
    norm_num; omega
  unfold UnpackedFloat.pack bitsOf
  simp only [Format.exponentBias, Format.mantissaBits, hb, if_false]
  by_cases hn : 2 ^ 52 ≤ m
  · have hl : m.log2 + 1 = 1 + 52 := by rw [log2_eq_52 hn hc.lt]
    simp only [hl, if_true, toNat_packComponents, BitVec.toNat_ofNat, if_pos hn]
    cases isNeg s <;> simp <;> omega
  · have hl : ¬ m.log2 + 1 = 1 + 52 := by have := log2_lt_52 hm (by omega); omega
    simp only [hl, if_false, toNat_packComponents, BitVec.toNat_ofNat, if_neg hn]
    cases isNeg s <;> simp <;> omega


/-- A double whose bits are those of `(-1)^neg · m · 2^q` splits into these parts. -/
theorem Binary.ofFloat_of_bits {x : Float} {neg : Bool} {m : Nat} {q : Int} (hc : Canonical m q)
    (h : x.toBits.toNat = bitsOf neg m q) : Binary.ofFloat x = .finite neg m q := by
  have hq := hc.le_max
  have hq' := hc.min_le
  have hlt := hc.lt
  unfold Binary.ofFloat bitsOf at *
  simp only [h]
  by_cases hn : 2 ^ 52 ≤ m
  · simp only [if_pos hn]
    have hsign : ((if neg = true then 2 ^ 63 else 0) + ((q + 1075).toNat * 2 ^ 52 + (m - 2 ^ 52))) /
        2 ^ 63 % 2 = if neg then 1 else 0 := by cases neg <;> simp <;> omega
    have he : ((if neg = true then 2 ^ 63 else 0) + ((q + 1075).toNat * 2 ^ 52 + (m - 2 ^ 52))) /
        2 ^ 52 % 2 ^ 11 = (q + 1075).toNat := by cases neg <;> simp <;> omega
    have hf : ((if neg = true then 2 ^ 63 else 0) + ((q + 1075).toNat * 2 ^ 52 + (m - 2 ^ 52))) %
        2 ^ 52 = m - 2 ^ 52 := by cases neg <;> simp <;> omega
    simp only [hsign, he, hf]
    rw [if_neg (by simp; omega), if_neg (by simp; omega)]
    cases neg <;> simp <;> omega
  · have hsub : q = -1074 := hc.normal.resolve_left hn
    simp only [if_neg hn]
    have hsign : ((if neg = true then 2 ^ 63 else 0) + m) / 2 ^ 63 % 2 = if neg then 1 else 0 := by
      cases neg <;> simp <;> omega
    have he : ((if neg = true then 2 ^ 63 else 0) + m) / 2 ^ 52 % 2 ^ 11 = 0 := by
      cases neg <;> simp <;> omega
    have hf : ((if neg = true then 2 ^ 63 else 0) + m) % 2 ^ 52 = m := by
      cases neg <;> simp <;> omega
    simp only [hsign, he, hf, hsub]
    cases neg <;> simp


/-- The three fields of a 64-bit pattern: sign, biased exponent and fraction. -/
theorem bits_split {n : Nat} (h : n < 2 ^ 64) :
    n = n / 2 ^ 63 % 2 * 2 ^ 63 + n / 2 ^ 52 % 2 ^ 11 * 2 ^ 52 + n % 2 ^ 52 := by
  omega

/-- A finite double has canonical parts, and its bits are those of its parts. -/
theorem Binary.bits_of_ofFloat {x : Float} {neg : Bool} {m : Nat} {q : Int}
    (h : Binary.ofFloat x = .finite neg m q) :
    Canonical m q ∧ x.toBits.toNat = bitsOf neg m q := by
  have hsplit := bits_split x.toBits.toNat_lt
  unfold Binary.ofFloat at h
  dsimp only at h
  generalize x.toBits.toNat = n at *
  have hS : n / 2 ^ 63 % 2 < 2 := Nat.mod_lt _ (by omega)
  have hE : n / 2 ^ 52 % 2 ^ 11 < 2 ^ 11 := Nat.mod_lt _ (by omega)
  have hf : n % 2 ^ 52 < 2 ^ 52 := Nat.mod_lt _ (by omega)
  generalize n / 2 ^ 63 % 2 = S at *
  generalize n / 2 ^ 52 % 2 ^ 11 = E at *
  generalize n % 2 ^ 52 = f at *
  subst hsplit
  simp only [Int.ofNat_eq_natCast] at h
  by_cases he : E = 2047
  · simp only [he, beq_self_eq_true, if_true] at h
    split_ifs at h
  by_cases hz : E = 0
  · simp only [hz, beq_self_eq_true, if_true, show (0 == 2047) = false from rfl,
      Bool.false_eq_true, if_false, Binary.finite.injEq] at h
    obtain ⟨rfl, rfl, rfl⟩ := h
    refine ⟨⟨by omega, by omega, by omega, Or.inr rfl⟩, ?_⟩
    unfold bitsOf
    rw [if_neg (show ¬ 2 ^ 52 ≤ f by omega)]
    rcases (show S = 0 ∨ S = 1 by omega) with rfl | rfl <;> simp <;> omega
  · simp only [he, hz, beq_iff_eq, if_false, Binary.finite.injEq] at h
    obtain ⟨rfl, rfl, rfl⟩ := h
    refine ⟨⟨by omega, by omega, by omega, Or.inl (by omega)⟩, ?_⟩
    unfold bitsOf
    rw [if_pos (show 2 ^ 52 ≤ f + 2 ^ 52 by omega)]
    rcases (show S = 0 ∨ S = 1 by omega) with rfl | rfl
    · simp
    · simp; omega


theorem unpackSign_packComponents (s : Sign) (e : BitVec 11) (f : BitVec 52) :
    unpackSign (packComponents Format.binary64 s e f) = s.toBitVec := by
  apply BitVec.eq_of_getLsbD_eq
  intro i hi
  have hi0 : i = 0 := by omega
  subst hi0
  simp only [unpackSign, packComponents, BitVec.getLsbD_cast, BitVec.getLsbD_extractLsb]
  rw [BitVec.getLsbD_append, BitVec.getLsbD_append]
  cases s <;> simp [Sign.toBitVec]

theorem Sign.ofBitVec_toBitVec (s : Sign) : Sign.ofBitVec s.toBitVec = s := by
  cases s <;> rfl

/-- Unpacking the bits of a finite double gives back its parts. -/
theorem unpack_pack_finite {s : Sign} {m : Nat} {q : Int} {hm : 0 < m} (hc : Canonical m q) :
    UnpackedFloat.unpack Format.binary64 (UnpackedFloat.pack Format.binary64 (.finite s m q hm)) =
      .finite s m q hm := by
  have hq := hc.le_max
  have hq' := hc.min_le
  have hlt := hc.lt
  have hb : ¬ 2 ^ 11 ≤ (q + ((2 ^ (11 - 1) - 1 : Nat) : Int) + ((52 : Nat) : Int)).toNat + 1 := by
    norm_num; omega
  unfold UnpackedFloat.pack
  simp only [Format.exponentBias, Format.mantissaBits, hb, if_false]
  have hbv : (BitVec.ofNat 11 (q + ((2 ^ (11 - 1) - 1 : Nat) : Int) + ((52 : Nat) : Int)).toNat).toNat =
      (q + 1075).toNat := by
    rw [BitVec.toNat_ofNat]; norm_num; omega
  have hmv : (BitVec.ofNat 52 m).toNat = m % 2 ^ 52 := BitVec.toNat_ofNat m 52
  by_cases hn : 2 ^ 52 ≤ m
  · have hl : m.log2 + 1 = 1 + 52 := by rw [log2_eq_52 hn hc.lt]
    have h1 : BitVec.ofNat 11 (q + ((2 ^ (11 - 1) - 1 : Nat) : Int) + ((52 : Nat) : Int)).toNat ≠
        -1#11 := by
      intro h; have := congrArg BitVec.toNat h; rw [hbv] at this; simp at this; omega
    have h0 : BitVec.ofNat 11 (q + ((2 ^ (11 - 1) - 1 : Nat) : Int) + ((52 : Nat) : Int)).toNat ≠
        0#11 := by
      intro h; have := congrArg BitVec.toNat h; rw [hbv] at this; simp at this; omega
    simp only [hl, if_true]
    unfold UnpackedFloat.unpack
    simp only [unpackMantissa_packComponents, unpackExponent_packComponents,
      unpackSign_packComponents, Sign.ofBitVec_toBitVec, Format.exponentBias, h1, h0, if_false,
      UnpackedFloat.finite.injEq, true_and]
    rw [BitVec.toNat_append, ← Nat.shiftLeft_add_eq_or_of_lt (BitVec.isLt _), hmv, hbv]
    norm_num
    omega
  · have hl : ¬ m.log2 + 1 = 1 + 52 := by have := log2_lt_52 hm (by omega); omega
    have hm0 : BitVec.ofNat 52 m ≠ 0#52 := by
      intro h; have := congrArg BitVec.toNat h; rw [hmv] at this; simp at this; omega
    simp only [hl, if_false]
    unfold UnpackedFloat.unpack
    simp only [unpackMantissa_packComponents, unpackExponent_packComponents,
      unpackSign_packComponents, Sign.ofBitVec_toBitVec, Format.exponentBias, hm0]
    have hz : (0#11 = -1#11) = False := by simp
    simp only [hz, if_false, if_true, dite_false, UnpackedFloat.finite.injEq, true_and]
    rw [hmv]
    have hsub := hc.normal.resolve_left hn
    norm_num
    omega


/-- Doubles with the same bits are equal. -/
theorem eq_of_toBits_eq {x y : Float} (h : x.toBits = y.toBits) : x = y := by
  rcases x with ⟨⟨bx, hx⟩⟩
  rcases y with ⟨⟨by', hy⟩⟩
  change bx = by' at h
  subst h
  rfl

theorem toBits_ofModel_pack (u : UnpackedFloat) :
    (Float.ofModel (Float.Model.pack u)).toBits.toNat = (UnpackedFloat.pack Format.binary64 u).toNat :=
  rfl

/-- Packing canonical parts gives a double with these parts. -/
theorem Binary.ofFloat_pack {s : Sign} {m : Nat} {q : Int} {hm : 0 < m} (hc : Canonical m q) :
    Binary.ofFloat (Float.ofModel (Float.Model.pack (.finite s m q hm))) = .finite (isNeg s) m q :=
  Binary.ofFloat_of_bits hc (by rw [toBits_ofModel_pack, toNat_pack_finite hc])

/-- Two finite doubles with the same parts are equal. -/
theorem Binary.eq_of_ofFloat_finite {x y : Float} {neg : Bool} {m : Nat} {q : Int}
    (hx : Binary.ofFloat x = .finite neg m q) (hy : Binary.ofFloat y = .finite neg m q) : x = y := by
  apply eq_of_toBits_eq
  apply UInt64.toNat_inj.1
  rw [(Binary.bits_of_ofFloat hx).2, (Binary.bits_of_ofFloat hy).2]

/-! ## The classes of a double -/

theorem toNat_unpackExponent (b : BitVec 64) :
    (@unpackExponent Format.binary64 b).toNat = b.toNat / 2 ^ 52 % 2 ^ 11 := by
  simp [unpackExponent, BitVec.extractLsb_toNat, Nat.shiftRight_eq_div_pow]

theorem toNat_unpackMantissa (b : BitVec 64) :
    (@unpackMantissa Format.binary64 b).toNat = b.toNat % 2 ^ 52 := by
  simp [unpackMantissa, BitVec.extractLsb_toNat]


/-- An infinity's bits are its sign, the all-ones exponent and a zero fraction. -/
theorem Binary.bits_of_ofFloat_inf {x : Float} {neg : Bool} (h : Binary.ofFloat x = .inf neg) :
    x.toBits.toNat = (if neg then 2 ^ 63 else 0) + 2047 * 2 ^ 52 := by
  have hsplit := bits_split x.toBits.toNat_lt
  unfold Binary.ofFloat at h
  dsimp only at h
  generalize x.toBits.toNat = n at *
  have hS : n / 2 ^ 63 % 2 < 2 := Nat.mod_lt _ (by omega)
  generalize n / 2 ^ 63 % 2 = S at *
  generalize n / 2 ^ 52 % 2 ^ 11 = E at *
  generalize n % 2 ^ 52 = f at *
  subst hsplit
  split_ifs at h with he hf
  simp only [beq_iff_eq, Binary.inf.injEq] at h he hf
  subst h he hf
  rcases (show S = 0 ∨ S = 1 by omega) with rfl | rfl <;> simp

/-- A NaN's bits have the all-ones exponent and a fraction that is not zero. -/
theorem Binary.fields_of_ofFloat_nan {x : Float} (h : Binary.ofFloat x = .nan) :
    x.toBits.toNat / 2 ^ 52 % 2 ^ 11 = 2047 ∧ x.toBits.toNat % 2 ^ 52 ≠ 0 := by
  unfold Binary.ofFloat at h
  dsimp only at h
  split_ifs at h with he hf
  simp only [beq_iff_eq] at he hf
  exact ⟨he, hf⟩

/-- Every NaN is the canonical one: the model of doubles keeps no other. -/
theorem Binary.eq_notANumber {x : Float} (h : Binary.ofFloat x = .nan) : x = notANumber := by
  obtain ⟨he, hf⟩ := Binary.fields_of_ofFloat_nan h
  have hb := x.toModel.valid.eq_packedNaN
    (BitVec.eq_of_toNat_eq (by rw [toNat_unpackExponent]; exact he))
    (fun h0 => hf (by have := congrArg BitVec.toNat h0; rwa [toNat_unpackMantissa] at this))
  apply eq_of_toBits_eq
  apply UInt64.toNat_inj.1
  have hx : x.toBits.toNat = (packedNaN Format.binary64).toNat := congrArg BitVec.toNat hb
  rw [hx]
  decide

/-- An infinity is `infinity` or its negation. -/
theorem Binary.eq_infinity {x : Float} {neg : Bool} (h : Binary.ofFloat x = .inf neg) :
    x = if neg then -infinity else infinity := by
  have hx := Binary.bits_of_ofFloat_inf h
  apply eq_of_toBits_eq
  apply UInt64.toNat_inj.1
  rw [hx]
  cases neg <;> decide

/-- A zero is `0.0` or `-0.0`. -/
theorem Binary.eq_zero {x : Float} {neg : Bool} {q : Int} (h : Binary.ofFloat x = .finite neg 0 q) :
    x = if neg then -0.0 else 0.0 := by
  have hx := (Binary.bits_of_ofFloat h).2
  apply eq_of_toBits_eq
  apply UInt64.toNat_inj.1
  rw [hx, bitsOf, if_neg (show ¬ 2 ^ 52 ≤ 0 by norm_num)]
  cases neg <;> decide


theorem unpack_pack_model {s : Sign} {m : Nat} {q : Int} {hm : 0 < m} (hc : Canonical m q) :
    (Float.Model.pack (.finite s m q hm)).unpack = .finite s m q hm :=
  unpack_pack_finite hc

/-- Negating a finite double flips its sign and keeps its parts. -/
theorem neg_ofModel_pack {s : Sign} {m : Nat} {q : Int} {hm : 0 < m} (hc : Canonical m q) :
    -Float.ofModel (Float.Model.pack (.finite s m q hm)) =
      Float.ofModel (Float.Model.pack (.finite (-s) m q hm)) := by
  show Float.ofModel (Float.Model.pack (Float.Model.pack (.finite s m q hm)).unpack.neg) = _
  rw [unpack_pack_model hc]
  rfl

theorem isNaN_ofModel_pack {s : Sign} {m : Nat} {q : Int} {hm : 0 < m} (hc : Canonical m q) :
    (Float.ofModel (Float.Model.pack (.finite s m q hm))).isNaN = false := by
  show (Float.Model.pack (.finite s m q hm)).unpack.isNaN = false
  rw [unpack_pack_model hc]
  rfl

theorem isInf_ofModel_pack {s : Sign} {m : Nat} {q : Int} {hm : 0 < m} (hc : Canonical m q) :
    (Float.ofModel (Float.Model.pack (.finite s m q hm))).isInf = false := by
  show (Float.Model.pack (.finite s m q hm)).unpack.isInf = false
  rw [unpack_pack_model hc]
  rfl

/-- A finite double is neither a NaN nor an infinity. -/
theorem Binary.isNaN_isInf_of_finite {x : Float} {neg : Bool} {m : Nat} {q : Int}
    (hx : Binary.ofFloat x = .finite neg m q) : x.isNaN = false ∧ x.isInf = false := by
  by_cases h0 : m = 0
  · subst h0
    rw [Binary.eq_zero hx]
    cases neg <;> decide
  · have hm : 0 < m := Nat.pos_of_ne_zero h0
    have hc := (Binary.bits_of_ofFloat hx).1
    -- the double is the packing of its parts, with its sign
    have hy : Binary.ofFloat (Float.ofModel (Float.Model.pack
        (.finite (if neg then .negative else .positive) m q hm))) = .finite neg m q := by
      rw [Binary.ofFloat_pack hc]
      cases neg <;> rfl
    rw [Binary.eq_of_ofFloat_finite hx hy]
    exact ⟨isNaN_ofModel_pack hc, isInf_ofModel_pack hc⟩

/-! ## Unpacking and packing again -/

theorem toNat_unpackSign (b : BitVec 64) :
    (@unpackSign Format.binary64 b).toNat = b.toNat / 2 ^ 63 % 2 := by
  simp [unpackSign, BitVec.extractLsb_toNat, Nat.shiftRight_eq_div_pow]

theorem isNeg_ofBitVec (s : BitVec 1) : isNeg (Sign.ofBitVec s) = (s.toNat == 1) := by
  have : s = 0#1 ∨ s = 1#1 := by
    rcases s with ⟨s, hs⟩
    have : s = 0 ∨ s = 1 := by omega
    rcases this with rfl | rfl <;> simp
  rcases this with rfl | rfl <;> rfl

/-- A 64-bit pattern is the packing of its own sign, exponent and fraction. -/
theorem packComponents_unpack (b : BitVec 64) :
    packComponents Format.binary64 (Sign.ofBitVec (@unpackSign Format.binary64 b))
      (@unpackExponent Format.binary64 b) (@unpackMantissa Format.binary64 b) = b := by
  apply BitVec.eq_of_toNat_eq
  rw [toNat_packComponents, isNeg_ofBitVec, toNat_unpackSign, toNat_unpackExponent,
    toNat_unpackMantissa]
  have hsplit := bits_split b.isLt
  have hS : b.toNat / 2 ^ 63 % 2 < 2 := Nat.mod_lt _ (by omega)
  rcases (show b.toNat / 2 ^ 63 % 2 = 0 ∨ b.toNat / 2 ^ 63 % 2 = 1 by omega) with h | h <;>
    simp only [h] <;> simp <;> omega

/-- Packing the unpacked form of a valid pattern gives the pattern back. -/
theorem pack_unpack_of_valid {b : BitVec 64} (hb : Format.binary64.Valid b) :
    UnpackedFloat.pack Format.binary64 (UnpackedFloat.unpack Format.binary64 b) = b := by
  have hsplit := packComponents_unpack b
  have hnan := hb.eq_packedNaN
  unfold UnpackedFloat.unpack
  dsimp only
  split_ifs with h1 h2 h3 h4
  · -- an infinity: the all-ones exponent and a zero fraction
    show packedInfinity Format.binary64 _ = b
    rw [h1, h2] at hsplit
    exact hsplit
  · -- a NaN: the model keeps the canonical one only
    exact (hnan h1 h2).symm
  · -- a zero: exponent and fraction all zeros
    show packedZero Format.binary64 _ = b
    rw [h3, h4] at hsplit
    exact hsplit
  · -- a subnormal value: the zero exponent, the fraction as the significand
    have hE0 : (@unpackExponent Format.binary64 b).toNat = 0 := by rw [h3]; rfl
    have hMlt := (@unpackMantissa Format.binary64 b).isLt
    have hMpos : 0 < (@unpackMantissa Format.binary64 b).toNat := by
      rw [Nat.pos_iff_ne_zero]; intro h0; exact h4 (BitVec.eq_of_toNat_eq (by simpa using h0))
    unfold UnpackedFloat.pack
    have hl : ¬ (@unpackMantissa Format.binary64 b).toNat.log2 + 1 =
        Format.binary64.mantissaBits := by
      have := log2_lt_52 hMpos hMlt; simp [Format.mantissaBits]; omega
    simp only [Format.exponentBias, hE0, hl, if_false]
    rw [if_neg (by norm_num), BitVec.ofNat_toNat, BitVec.setWidth_eq, ← h3]
    exact hsplit
  · -- a normal value: the hidden bit set above the fraction
    have hElt := (@unpackExponent Format.binary64 b).isLt
    have hEne : (@unpackExponent Format.binary64 b).toNat ≠ 2047 := by
      intro h; exact h1 (BitVec.eq_of_toNat_eq (by simpa using h))
    have hEpos : (@unpackExponent Format.binary64 b).toNat ≠ 0 := by
      intro h; exact h3 (BitVec.eq_of_toNat_eq (by simpa using h))
    have hm : (1#1 ++ @unpackMantissa Format.binary64 b).toNat =
        2 ^ 52 + (@unpackMantissa Format.binary64 b).toNat := by
      rw [BitVec.toNat_append, ← Nat.shiftLeft_add_eq_or_of_lt (BitVec.isLt _)]
      simp [Nat.shiftLeft_eq]
    have hMlt := (@unpackMantissa Format.binary64 b).isLt
    have hbe : ((((@unpackExponent Format.binary64 b).toNat : Int) -
        (((Format.binary64.exponentBias : Nat) : Int) + ((52 : Nat) : Int)) +
        ((Format.binary64.exponentBias : Nat) : Int) +
        ((Format.binary64.mantissaBitsWithoutImplicit : Nat) : Int)).toNat) =
        (@unpackExponent Format.binary64 b).toNat := by
      simp only [Format.exponentBias]; norm_num; omega
    have hl : (1#1 ++ @unpackMantissa Format.binary64 b).toNat.log2 + 1 =
        Format.binary64.mantissaBits := by
      rw [hm, log2_eq_52 (by omega) (by simp at hMlt ⊢; omega)]; rfl
    unfold UnpackedFloat.pack
    simp only [hbe]
    rw [if_neg (by simp only [Format.binary64] at hElt ⊢; omega), if_pos hl,
      BitVec.ofNat_toNat, BitVec.setWidth_eq]
    convert hsplit using 2
    apply BitVec.eq_of_toNat_eq
    rw [BitVec.toNat_ofNat, hm]
    simp at hMlt ⊢
    omega


/-- Every double is the packing of its unpacked form. -/
theorem model_pack_unpack (x : Float.Model) : Float.Model.pack x.unpack = x := by
  obtain ⟨bits, hv⟩ := x
  have h := pack_unpack_of_valid hv
  simp only [Float.Model.pack, Float.Model.unpack, h]

theorem ofModel_pack_unpack (v : Float) :
    Float.ofModel (Float.Model.pack v.toModel.unpack) = v := by
  rw [model_pack_unpack]

/-- Adding a zero to a value that is not a zero gives the value back, on either side: a NaN and
an infinity absorb the zero, and a finite value is kept as it is. -/
theorem add_zero_left {u : UnpackedFloat} (hu : ∀ s, u ≠ .zero s) (s : Sign) :
    UnpackedFloat.add Format.binary64 (.zero s) u = u := by
  cases u with
  | zero s' => exact absurd rfl (hu s')
  | _ => rfl

theorem add_zero_right {u : UnpackedFloat} (hu : ∀ s, u ≠ .zero s) (s : Sign) :
    UnpackedFloat.add Format.binary64 u (.zero s) = u := by
  cases u with
  | zero s' => exact absurd rfl (hu s')
  | infinity s' => rfl
  | notANumber => rfl
  | finite => rfl

theorem unpack_zero : (0.0 : Float).toModel.unpack = .zero .positive := rfl

/-- A double that does not equal zero is no zero of either sign. -/
theorem unpack_ne_zero {v : Float} (h : (v == 0) = false) (s : Sign) :
    v.toModel.unpack ≠ .zero s := by
  intro hv
  have : (v == 0) = true := by
    show v.toModel.unpack.beq (0 : Float).toModel.unpack = true
    rw [hv]
    cases s <;> rfl
  rw [h] at this
  cases this

theorem float_zero_add {v : Float} (h : (v == 0) = false) : 0.0 + v = v := by
  show Float.ofModel (Float.Model.pack (UnpackedFloat.add _ (0.0 : Float).toModel.unpack
    v.toModel.unpack)) = v
  rw [unpack_zero, add_zero_left (unpack_ne_zero h), ofModel_pack_unpack]

theorem float_add_zero {v : Float} (h : (v == 0) = false) : v + 0.0 = v := by
  show Float.ofModel (Float.Model.pack (UnpackedFloat.add _ v.toModel.unpack
    (0.0 : Float).toModel.unpack)) = v
  rw [unpack_zero, add_zero_right (unpack_ne_zero h), ofModel_pack_unpack]

theorem float_beq_self {v : Float} (h : v.isNaN = false) : (v == v) = true := by
  show v.toModel.unpack.beq v.toModel.unpack = true
  have h' : v.toModel.unpack.isNaN = false := h
  cases hu : v.toModel.unpack with
  | notANumber => rw [hu] at h'; cases h'
  | infinity s => cases s <;> rfl
  | zero s => rfl
  | finite s m e hm => cases s <;> simp [UnpackedFloat.beq, UnpackedFloat.compare]

end Loot.Decimal
