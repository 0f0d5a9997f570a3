import Loot.Proofs.DecimalShortest
import Loot.Json.Read
import Loot.Json.Write

/-!
# Number tokens read back

The reader takes every number token the writer writes back to the same number, whatever follows
that cannot continue it. A double's shortest text is a `FloatNumeral` whose value reads back as the
double (`scanValue_floatToken`); an integer's digits read back when there are at most
`maxIntDigits` of them (`scanValue_intToken`).
-/

namespace Loot.Json

open Loot.Decimal

/-! ## Numerals -/

/-- Nothing that could continue a numeral stands at the start of `rest`. -/
def NumeralEnd (rest : List Char) : Prop :=
  ∀ ch ∈ rest.head?, ch.isDigit = false ∧ ch ≠ '.' ∧ ch ≠ 'e' ∧ ch ≠ 'E'

/-- A numeral that reads as a double: an optional minus, whole digits without a leading zero, an
optional fraction and an optional signed exponent, at least one of the two. -/
structure FloatNumeral where
  /-- Whether a minus leads. -/
  neg : Bool
  /-- The digits before the point. -/
  whole : List Char
  /-- The digits after the point; none when there is no point. -/
  frac : List Char
  /-- The exponent: whether it is negative, and its digits. -/
  exponent : Option (Bool × List Char)
  whole_ne : whole ≠ []
  whole_digits : ∀ ch ∈ whole, ch.isDigit
  whole_lead : whole.head? = some '0' → whole = ['0']
  frac_digits : ∀ ch ∈ frac, ch.isDigit
  exponent_digits : ∀ en ds, exponent = some (en, ds) → ds ≠ [] ∧ ∀ ch ∈ ds, ch.isDigit
  not_int : frac ≠ [] ∨ exponent.isSome

namespace FloatNumeral

/-- The point and digits of a numeral's fraction, if it has one. -/
def fractionText (n : FloatNumeral) : List Char :=
  if n.frac = [] then [] else '.' :: n.frac

/-- The marker, sign and digits of a numeral's exponent, if it has one. -/
def exponentText (n : FloatNumeral) : List Char :=
  match n.exponent with
  | none => []
  | some (en, ds) => 'e' :: (if en then '-' else '+') :: ds

/-- The text of a numeral after its sign. -/
def body (n : FloatNumeral) : List Char := n.whole ++ (n.fractionText ++ n.exponentText)

/-- The text of a numeral. -/
def text (n : FloatNumeral) : List Char := (if n.neg then ['-'] else []) ++ n.body

/-- The exponent's value. -/
def exponentValue (n : FloatNumeral) : Int :=
  match n.exponent with
  | none => 0
  | some (en, ds) => if en then -(digitsValue ds : Int) else digitsValue ds

/-- The exact value of a numeral's digits. -/
def exact (n : FloatNumeral) : ℚ :=
  digitsValue (n.whole ++ n.frac) * 10 ^ (n.exponentValue - n.frac.length)

/-- The double a numeral reads as. -/
def value (n : FloatNumeral) : Float :=
  let x := toFloat (digitsValue (n.whole ++ n.frac)) (n.exponentValue - n.frac.length)
  if n.neg then -x else x

end FloatNumeral

/-! ## The pieces of a number -/

theorem takeWhile_digits_append {ds rest : List Char} (hd : ∀ ch ∈ ds, ch.isDigit)
    (hr : ∀ ch ∈ rest.head?, ch.isDigit = false) : (ds ++ rest).takeWhile Char.isDigit = ds := by
  rw [List.takeWhile_append_of_pos hd]
  cases rest with
  | nil => simp
  | cons ch rest => simp [List.takeWhile_cons_of_neg (by simpa using hr ch rfl)]



theorem splitMinus_of_ne {c : Char} (h : c ≠ '-') (r : List Char) :
    splitMinus (c :: r) = (false, c :: r) := by
  simp [splitMinus, h]

theorem wholeDigits_of_ne {c : Char} (h : c ≠ '0') (r : List Char) :
    wholeDigits (c :: r) = (c :: r).takeWhile Char.isDigit := by
  unfold wholeDigits
  split
  · simp_all
  · rfl

/-- Digits without a leading zero, or a lone zero, are the whole part of what they start. -/
theorem wholeDigits_append {ds rest : List Char} (hne : ds ≠ []) (hd : ∀ ch ∈ ds, ch.isDigit)
    (h0 : ds.head? = some '0' → ds = ['0']) (hr : ∀ ch ∈ rest.head?, ch.isDigit = false) :
    wholeDigits (ds ++ rest) = ds := by
  obtain ⟨w, ws, rfl⟩ := List.exists_cons_of_ne_nil hne
  by_cases hw : w = '0'
  · subst hw
    obtain rfl : ws = [] := by simpa using h0 rfl
    rfl
  · rw [List.cons_append, wholeDigits_of_ne hw, ← List.cons_append, takeWhile_digits_append hd hr]

theorem fractionDigits_point {f : Char} {fs rest : List Char} (hd : ∀ ch ∈ f :: fs, ch.isDigit)
    (hr : ∀ ch ∈ rest.head?, ch.isDigit = false) :
    fractionDigits ('.' :: f :: (fs ++ rest)) = f :: fs := by
  simp only [fractionDigits, hd f (by simp), if_true]
  rw [← List.cons_append, takeWhile_digits_append hd hr]

theorem fractionDigits_of_ne {c : Char} (h : c ≠ '.') (r : List Char) :
    fractionDigits (c :: r) = [] := by
  unfold fractionDigits
  split
  · simp_all
  · rfl

theorem exponentPart_marker (s : Bool) {ds rest : List Char} (hne : ds ≠ [])
    (hd : ∀ ch ∈ ds, ch.isDigit) (hr : ∀ ch ∈ rest.head?, ch.isDigit = false) :
    exponentPart ('e' :: (if s then '-' else '+') :: (ds ++ rest)) = some (s, ds, 2 + ds.length) := by
  have hds := takeWhile_digits_append hd hr
  cases s <;> simp [exponentPart, hds, hne]

theorem exponentPart_of_ne {c : Char} (he : c ≠ 'e') (hE : c ≠ 'E') (r : List Char) :
    exponentPart (c :: r) = none := by
  simp [exponentPart, he, hE]

/-- What ends a numeral: the end of the text, or a character that cannot continue it. -/
theorem exponentPart_of_end {rest : List Char} (hr : NumeralEnd rest) : exponentPart rest = none := by
  cases rest with
  | nil => rfl
  | cons ch r =>
    obtain ⟨-, -, he, hE⟩ := hr ch rfl
    exact exponentPart_of_ne he hE r

theorem NumeralEnd.not_digit {rest : List Char} (hr : NumeralEnd rest) :
    ∀ ch ∈ rest.head?, ch.isDigit = false :=
  fun ch h => (hr ch h).1

theorem fractionDigits_of_end {rest : List Char} (hr : NumeralEnd rest) : fractionDigits rest = [] := by
  cases rest with
  | nil => rfl
  | cons ch r => exact fractionDigits_of_ne (hr ch rfl).2.1 r


/-! ## Reading a numeral -/

theorem FloatNumeral.exponentText_head (n : FloatNumeral) {rest : List Char}
    (hr : NumeralEnd rest) : ∀ ch ∈ (n.exponentText ++ rest).head?, ch.isDigit = false ∧ ch ≠ '.' := by
  unfold FloatNumeral.exponentText
  split
  · exact fun ch h => ⟨(hr ch h).1, (hr ch h).2.1⟩
  · intro ch h
    simp only [List.cons_append, List.head?_cons, Option.mem_def, Option.some.injEq] at h
    subst h
    decide

theorem FloatNumeral.exponentPart_text (n : FloatNumeral) {rest : List Char}
    (hr : NumeralEnd rest) :
    exponentPart (n.exponentText ++ rest) = n.exponent.map fun x => (x.1, x.2, 2 + x.2.length) := by
  unfold FloatNumeral.exponentText
  split
  next h => rw [h]; exact exponentPart_of_end hr
  next en ds h =>
    obtain ⟨hne, hd⟩ := n.exponent_digits en ds h
    rw [h, List.cons_append, List.cons_append]
    exact exponentPart_marker en hne hd hr.not_digit

theorem scanNumber_text (n : FloatNumeral) {rest : List Char} (hr : NumeralEnd rest) (p : Nat) :
    ∃ p', scanNumber (n.text ++ rest) p = .ok (.float n.value, rest, p') := by
  have hex := n.exponentText_head hr
  have hsplit : splitMinus (n.text ++ rest) =
      (n.neg, n.whole ++ (n.fractionText ++ n.exponentText ++ rest)) := by
    unfold FloatNumeral.text FloatNumeral.body
    cases n.neg
    · obtain ⟨w, ws, hw⟩ := List.exists_cons_of_ne_nil n.whole_ne
      have hwd : w.isDigit := n.whole_digits w (by simp [hw])
      have hne : w ≠ '-' := by rintro rfl; exact absurd hwd (by decide)
      simp [hw, splitMinus_of_ne hne]
    · simp [splitMinus]
  -- what follows the whole digits starts with a point, an exponent marker or the end
  have hafter : ∀ ch ∈ (n.fractionText ++ n.exponentText ++ rest).head?, ch.isDigit = false := by
    unfold FloatNumeral.fractionText
    split
    · exact fun ch h => (hex ch h).1
    · intro ch h
      simp only [List.cons_append, List.head?_cons, Option.mem_def, Option.some.injEq] at h
      subst h
      decide
  have hwhole : wholeDigits (n.whole ++ (n.fractionText ++ n.exponentText ++ rest)) = n.whole :=
    wholeDigits_append n.whole_ne n.whole_digits n.whole_lead hafter
  have hfrac : fractionDigits (n.fractionText ++ n.exponentText ++ rest) = n.frac := by
    unfold FloatNumeral.fractionText
    split
    next h =>
      rw [h, List.nil_append]
      cases hrest : n.exponentText ++ rest with
      | nil => rfl
      | cons ch r => exact fractionDigits_of_ne (hex ch (by simp [hrest])).2 r
    next h =>
      obtain ⟨f, fs, hf⟩ := List.exists_cons_of_ne_nil h
      rw [hf]
      simp only [List.cons_append, List.append_assoc]
      exact fractionDigits_point (hf ▸ n.frac_digits) (fun ch h => (hex ch h).1)
  have hr2 : (if n.frac.isEmpty then n.fractionText ++ n.exponentText ++ rest
      else (n.fractionText ++ n.exponentText ++ rest).drop (n.frac.length + 1)) =
      n.exponentText ++ rest := by
    unfold FloatNumeral.fractionText
    by_cases h : n.frac = []
    · simp [h]
    · simp [h]
  have hw : n.whole.isEmpty = false := List.isEmpty_eq_false_iff.2 n.whole_ne
  simp only [scanNumber, hsplit, hwhole, List.drop_left, hfrac, hr2, n.exponentPart_text hr, hw]
  unfold FloatNumeral.value FloatNumeral.exponentValue
  rcases hx : n.exponent with _ | ⟨en, ds⟩
  · -- no exponent: the fraction is not empty
    have hf : n.frac.isEmpty = false := by
      have := n.not_int
      rw [hx] at this
      simpa using this
    have he : n.exponentText = [] := by simp [FloatNumeral.exponentText, hx]
    simp [hf, he]
  · -- an exponent: its text is the marker, the sign and the digits
    have he : n.exponentText = 'e' :: (if en then '-' else '+') :: ds := by
      simp [FloatNumeral.exponentText, hx]
    have hdrop : (n.exponentText ++ rest).drop (2 + ds.length) = rest := by
      rw [he]
      simp [Nat.add_comm]
    simp [hdrop]


/-- A text that starts with a digit, or with a minus and a digit, is a number to the reader. -/
theorem scanValue_number {fuel room : Nat} {c : Char} {cs : List Char} (p : Nat)
    (hc : c.isDigit ∨ (c = '-' ∧ ∀ d ∈ cs.head?, d.isDigit)) :
    scanValue (fuel + 1) room (c :: cs) p = scanNumber (c :: cs) p := by
  -- the first character is none of those that start another kind of value
  have hne : c ≠ '"' ∧ c ≠ '{' ∧ c ≠ '[' ∧ c ≠ 'n' ∧ c ≠ 't' ∧ c ≠ 'f' ∧ c ≠ 'N' ∧ c ≠ 'I' ∧
      (c = '-' → ∀ d ∈ cs.head?, d ≠ 'I') := by
    rcases hc with hc | ⟨rfl, hd⟩
    · refine ⟨?_, ?_, ?_, ?_, ?_, ?_, ?_, ?_, ?_⟩ <;> rintro rfl <;> simp at hc
    · refine ⟨by decide, by decide, by decide, by decide, by decide, by decide, by decide,
        by decide, fun _ d h hI => ?_⟩
      subst hI
      simpa using hd _ h
  obtain ⟨h1, h2, h3, h4, h5, h6, h7, h8, h9⟩ := hne
  unfold scanValue
  split <;> simp_all

theorem FloatNumeral.scanValue_text (n : FloatNumeral) {fuel room : Nat} (rest : List Char)
    (p : Nat) : scanValue (fuel + 1) room (n.text ++ rest) p = scanNumber (n.text ++ rest) p := by
  obtain ⟨w, ws, hw⟩ := List.exists_cons_of_ne_nil n.whole_ne
  have hwd : w.isDigit := n.whole_digits w (by simp [hw])
  unfold FloatNumeral.text FloatNumeral.body
  cases n.neg
  · simp only [hw, Bool.false_eq_true, if_false, List.nil_append, List.cons_append]
    exact scanValue_number p (.inl hwd)
  · simp only [hw, if_true, List.cons_append, List.nil_append]
    exact scanValue_number p (.inr ⟨rfl, by simp [hwd]⟩)


/-! ## Digits -/

theorem digitsValue_eq (l : List Char) : digitsValue l = Nat.ofDigitChars 10 l 0 := rfl

theorem digitsValue_toDigits (c : Nat) : digitsValue (Nat.toDigits 10 c) = c :=
  Nat.ofDigitChars_ten_toDigits

theorem toDigits_isDigit (c : Nat) : ∀ ch ∈ Nat.toDigits 10 c, ch.isDigit :=
  fun _ h => Nat.isDigit_of_mem_toDigits (by decide) (by decide) h

/-- A positive number's digits do not start with a zero. -/
theorem toDigits_head?_ne_zero {c : Nat} (hc : 0 < c) : (Nat.toDigits 10 c).head? ≠ some '0' := by
  induction c using Nat.strong_induction_on with
  | _ c ih =>
    rw [Nat.toDigits_eq_if (by decide)]
    split
    · simp
      omega
    · rw [List.head?_append_of_ne_nil _ Nat.toDigits_ne_nil]
      exact ih (c / 10) (by omega) (by omega)

theorem digitsValue_append (l m : List Char) :
    digitsValue (l ++ m) = digitsValue l * 10 ^ m.length + digitsValue m := by
  rw [digitsValue_eq, Nat.ofDigitChars_append, Nat.ofDigitChars_eq_ofDigitChars_zero, ← digitsValue_eq,
    ← digitsValue_eq, Nat.mul_comm]

theorem digitsValue_replicate_zero (k : Nat) : digitsValue (List.replicate k '0') = 0 := by
  rw [digitsValue_eq, Nat.ofDigitChars_replicate_zero, Nat.mul_zero]

theorem digitsValue_zero_cons (l : List Char) : digitsValue ('0' :: l) = digitsValue l := by
  rw [← List.singleton_append, digitsValue_append]
  simp [digitsValue]

theorem replicate_zero_isDigit (k : Nat) : ∀ ch ∈ List.replicate k '0', ch.isDigit := by
  intro ch h
  rw [List.eq_of_mem_replicate h]
  rfl

/-! ## The layout of the shortest text -/

/-- The digits of an exponent, padded to two. -/
def paddedDigits (k : Nat) : List Char :=
  if (Nat.toDigits 10 k).length < 2 then '0' :: Nat.toDigits 10 k else Nat.toDigits 10 k

theorem exponentText_eq (x : Int) :
    Decimal.exponentText x = (if decide (x < 0) then '-' else '+') :: paddedDigits x.natAbs := by
  simp [Decimal.exponentText, paddedDigits]

theorem paddedDigits_ne_nil (k : Nat) : paddedDigits k ≠ [] := by
  unfold paddedDigits
  split <;> simp

theorem paddedDigits_isDigit (k : Nat) : ∀ ch ∈ paddedDigits k, ch.isDigit := by
  unfold paddedDigits
  split
  · intro ch h
    rcases List.mem_cons.1 h with rfl | h
    · rfl
    · exact toDigits_isDigit k ch h
  · exact toDigits_isDigit k

theorem digitsValue_paddedDigits (k : Nat) : digitsValue (paddedDigits k) = k := by
  unfold paddedDigits
  split
  · rw [digitsValue_zero_cons, digitsValue_toDigits]
  · rw [digitsValue_toDigits]

/-- A signed exponent read back from its sign and its digits. -/
theorem signed_natAbs (x : Int) :
    (if decide (x < 0) = true then -(x.natAbs : Int) else x.natAbs) = x := by
  rw [Int.natCast_natAbs]
  by_cases h : x < 0
  · rw [if_pos (decide_eq_true h), abs_of_neg h, neg_neg]
  · rw [if_neg (by simpa using h), abs_of_nonneg (by omega)]

/-! Each placement of the decimal point makes the digits `ds` of a positive number into a numeral
with the value `ds · 10^e` for the point's position. -/

/-- `0.`, `k` zeros, then the digits. -/
theorem exists_numeral_point_first (neg : Bool) {ds : List Char} (hne : ds ≠ [])
    (hd : ∀ ch ∈ ds, ch.isDigit) (k : Nat) :
    ∃ n : FloatNumeral, n.neg = neg ∧ n.body = ['0', '.'] ++ List.replicate k '0' ++ ds ∧
      n.exact = digitsValue ds * 10 ^ (-((k + ds.length : Nat) : Int)) := by
  refine ⟨⟨neg, ['0'], List.replicate k '0' ++ ds, none, by simp, by simp, fun _ => rfl, ?_,
    by simp, .inl (by simp [hne])⟩, rfl, ?_, ?_⟩
  · intro ch h
    rcases List.mem_append.1 h with h | h
    · exact replicate_zero_isDigit k ch h
    · exact hd ch h
  · simp [FloatNumeral.body, FloatNumeral.fractionText, FloatNumeral.exponentText, hne]
  · simp [FloatNumeral.exact, FloatNumeral.exponentValue, digitsValue_zero_cons, digitsValue_append,
      digitsValue_replicate_zero]

/-- The first `k` digits, the point, then the others. -/
theorem exists_numeral_point_inside (neg : Bool) {ds : List Char} (hne : ds ≠ [])
    (hd : ∀ ch ∈ ds, ch.isDigit) (hlead : ds.head? ≠ some '0') {k : Nat} (hk : 0 < k)
    (hkl : k < ds.length) :
    ∃ n : FloatNumeral, n.neg = neg ∧ n.body = ds.take k ++ '.' :: ds.drop k ∧
      n.exact = digitsValue ds * 10 ^ ((k : Int) - ds.length) := by
  have hfrac : ds.drop k ≠ [] := by
    rw [ne_eq, List.drop_eq_nil_iff]; omega
  refine ⟨⟨neg, ds.take k, ds.drop k, none, ?_, fun ch h => hd ch (List.mem_of_mem_take h), ?_,
    fun ch h => hd ch (List.mem_of_mem_drop h), by simp, .inl hfrac⟩, rfl, ?_, ?_⟩
  · rw [ne_eq, List.take_eq_nil_iff, not_or]
    exact ⟨by omega, hne⟩
  · intro h
    rw [List.head?_take, if_neg (by omega)] at h
    exact absurd h hlead
  · simp [FloatNumeral.body, FloatNumeral.fractionText, FloatNumeral.exponentText, hfrac]
  · simp only [FloatNumeral.exact, FloatNumeral.exponentValue, List.take_append_drop,
      List.length_drop]
    congr 2
    omega

/-- The digits, `k` zeros, then `.0`. -/
theorem exists_numeral_point_after (neg : Bool) {ds : List Char} (hne : ds ≠ [])
    (hd : ∀ ch ∈ ds, ch.isDigit) (hlead : ds.head? ≠ some '0') (k : Nat) :
    ∃ n : FloatNumeral, n.neg = neg ∧ n.body = ds ++ List.replicate k '0' ++ ['.', '0'] ∧
      n.exact = digitsValue ds * 10 ^ (k : Int) := by
  refine ⟨⟨neg, ds ++ List.replicate k '0', ['0'], none, by simp [hne], ?_, ?_, by simp,
    by simp, .inl (by simp)⟩, rfl, ?_, ?_⟩
  · intro ch h
    rcases List.mem_append.1 h with h | h
    · exact hd ch h
    · exact replicate_zero_isDigit _ ch h
  · intro h
    rw [List.head?_append_of_ne_nil _ hne] at h
    exact absurd h hlead
  · simp [FloatNumeral.body, FloatNumeral.fractionText, FloatNumeral.exponentText]
  · -- the trailing `0` after the point adds a digit and takes one place off the exponent
    have h0 : digitsValue ['0'] = 0 := rfl
    simp only [FloatNumeral.exact, FloatNumeral.exponentValue, List.append_assoc,
      digitsValue_append, digitsValue_replicate_zero, List.length_append, List.length_replicate,
      List.length_singleton, h0]
    push_cast
    rw [zpow_neg_one, zpow_natCast, pow_succ, add_zero]
    field_simp

/-- One digit, the point and the others if there are any, then the exponent `x`. -/
theorem exists_numeral_scientific (neg : Bool) {d : Char} {ds : List Char}
    (hd : ∀ ch ∈ d :: ds, ch.isDigit) (hlead : d ≠ '0') (x : Int) :
    ∃ n : FloatNumeral, n.neg = neg ∧
      n.body = d :: ((if ds = [] then [] else '.' :: ds) ++ 'e' :: Decimal.exponentText x) ∧
      n.exact = digitsValue (d :: ds) * 10 ^ (x - ds.length) := by
  refine ⟨⟨neg, [d], ds, some (decide (x < 0), paddedDigits x.natAbs), by simp, ?_, ?_,
    fun ch h => hd ch (List.mem_cons_of_mem d h), ?_, .inr rfl⟩, rfl, ?_, ?_⟩
  · intro ch h
    rw [List.mem_singleton.1 h]
    exact hd d List.mem_cons_self
  · intro h
    simp only [List.head?_cons, Option.some.injEq] at h
    exact absurd h hlead
  · intro en ds₀ h
    simp only [Option.some.injEq, Prod.mk.injEq] at h
    obtain ⟨-, rfl⟩ := h
    exact ⟨paddedDigits_ne_nil _, paddedDigits_isDigit _⟩
  · simp [FloatNumeral.body, FloatNumeral.fractionText, FloatNumeral.exponentText, exponentText_eq]
  · simp only [FloatNumeral.exact, FloatNumeral.exponentValue, digitsValue_paddedDigits,
      signed_natAbs, List.singleton_append]


/-- The shortest layout of positive digits `c · 10^e` is a numeral of that value. -/
theorem exists_numeral_write (neg : Bool) {c : Nat} (hc : 0 < c) (e : Int) :
    ∃ n : FloatNumeral, n.neg = neg ∧ n.body = Decimal.Layout.short.write c e ∧
      n.exact = c * 10 ^ e := by
  have hne : Nat.toDigits 10 c ≠ [] := Nat.toDigits_ne_nil
  have hd := toDigits_isDigit c
  have hlead := toDigits_head?_ne_zero hc
  have hval := digitsValue_toDigits c
  unfold Decimal.Layout.write Decimal.Layout.place
  simp only [Decimal.Layout.short]
  generalize Nat.toDigits 10 c = ds at hne hd hlead hval
  rw [← hval]
  split_ifs with hrange hle hlt
  · obtain ⟨n, hn, hb, hv⟩ := exists_numeral_point_first neg hne hd (-(ds.length + e)).toNat
    refine ⟨n, hn, hb, ?_⟩
    rw [hv]
    congr 2
    omega
  · obtain ⟨n, hn, hb, hv⟩ := exists_numeral_point_inside neg hne hd hlead
      (k := (ds.length + e).toNat) (by omega) (by omega)
    refine ⟨n, hn, hb, ?_⟩
    rw [hv]
    congr 2
    omega
  · obtain ⟨n, hn, hb, hv⟩ := exists_numeral_point_after neg hne hd hlead e.toNat
    refine ⟨n, hn, ?_, ?_⟩
    · rw [hb, show (ds.length + e).toNat - ds.length = e.toNat by omega]
    · rw [hv]
      congr 2
      omega
  · -- scientific notation
    obtain ⟨d, ds', rfl⟩ := List.exists_cons_of_ne_nil hne
    have hd0 : d ≠ '0' := fun h => hlead (by simp [h])
    obtain ⟨n, hn, hb, hv⟩ := exists_numeral_scientific neg hd hd0 (ds'.length + 1 + e - 1)
    refine ⟨n, hn, ?_, ?_⟩
    · rw [hb]
      cases ds' <;> simp
    · rw [hv]
      congr 2
      omega

/-! ## Number tokens -/

theorem toFloat_zero (e : Int) : toFloat 0 e = 0.0 := by
  simp [toFloat]

theorem signText_toList (neg : Bool) :
    (if neg then "-" else "").toList = if neg then ['-'] else [] := by
  cases neg <;> rfl

/-- The shortest text of a finite double is a numeral whose value is that double. -/
theorem exists_numeral_shortText {x : Float} {neg : Bool} {m : Nat} {q : Int}
    (hx : Binary.ofFloat x = .finite neg m q) :
    ∃ n : FloatNumeral, (shortText x).toList = n.text ∧ n.value = x := by
  obtain ⟨hc, -⟩ := Binary.bits_of_ofFloat hx
  unfold shortText
  rw [hx]
  dsimp only
  by_cases h0 : m = 0
  · -- a zero is written `0.0`, with its sign
    rw [if_pos h0]
    subst h0
    refine ⟨⟨neg, ['0'], ['0'], none, by simp, by simp, fun _ => rfl, by simp, by simp,
      .inl (by simp)⟩, ?_, ?_⟩
    · rw [String.toList_append, signText_toList]
      rfl
    · have h00 : digitsValue (['0'] ++ ['0']) = 0 := rfl
      rw [Binary.eq_zero hx]
      simp only [FloatNumeral.value, h00, toFloat_zero]
  · rw [if_neg h0]
    have hm : 0 < m := Nat.pos_of_ne_zero h0
    have hv := shortest_holds hc hm
    rcases hs : shortest m q with ⟨c, e⟩
    rw [hs] at hv
    obtain ⟨n, hneg, htext, hval⟩ := exists_numeral_write neg (hv.digits_pos hc hm) e
    refine ⟨n, ?_, ?_⟩
    · rw [String.toList_append, signText_toList, String.toList_ofList, FloatNumeral.text, hneg,
        htext]
    · -- the digits read back as the positive double with these parts
      have hy := @Binary.ofFloat_pack .positive m q hm hc
      have hread : toFloat (digitsValue (n.whole ++ n.frac)) (n.exponentValue - n.frac.length) =
          Float.ofModel (Float.Model.pack (.finite .positive m q hm)) :=
        toFloat_eq_of_holds hy hm (by rw [← hval] at hv; exact hv)
      unfold FloatNumeral.value
      rw [hread, hneg]
      cases neg
      · exact Binary.eq_of_ofFloat_finite hy hx
      · rw [if_pos rfl, neg_ofModel_pack hc]
        exact Binary.eq_of_ofFloat_finite (Binary.ofFloat_pack hc) hx


/-- Every double's token reads back as that double, whatever follows that cannot continue it. -/
theorem scanValue_floatToken (x : Float) {rest : List Char} (hr : NumeralEnd rest)
    (fuel room p : Nat) :
    ∃ p', scanValue (fuel + 1) room ((floatToken x).toList ++ rest) p = .ok (.float x, rest, p') := by
  rcases hb : Binary.ofFloat x with _ | neg | ⟨neg, m, q⟩
  · -- the one NaN is written `NaN`
    rw [Binary.eq_notANumber hb]
    have hnan : notANumber.isNaN = true := by decide
    have ht : "NaN".toList = ['N', 'a', 'N'] := by decide
    simp only [floatToken, hnan, if_true, ht, List.cons_append, List.nil_append]
    exact ⟨p + 3, by simp [scanValue]⟩
  · -- an infinity is written as a word with its sign
    rw [Binary.eq_infinity hb]
    cases neg
    · have h : infinity.isNaN = false ∧ infinity.isInf = true ∧ ¬ infinity < 0 := by decide
      have ht : "Infinity".toList = ['I', 'n', 'f', 'i', 'n', 'i', 't', 'y'] := by decide
      simp only [floatToken, h, Bool.false_eq_true, if_false, if_true, ht, List.cons_append,
        List.nil_append]
      exact ⟨p + 8, by simp [scanValue]⟩
    · have h : (-infinity).isNaN = false ∧ (-infinity).isInf = true ∧ -infinity < 0 := by decide
      have ht : "-Infinity".toList = ['-', 'I', 'n', 'f', 'i', 'n', 'i', 't', 'y'] := by decide
      simp only [floatToken, h, Bool.false_eq_true, if_false, if_true, ht, List.cons_append,
        List.nil_append]
      exact ⟨p + 9, by simp [scanValue]⟩
  · -- a finite double is written as its shortest numeral
    obtain ⟨hnan, hinf⟩ := Binary.isNaN_isInf_of_finite hb
    obtain ⟨n, htext, hval⟩ := exists_numeral_shortText hb
    simp only [floatToken, hnan, hinf, Bool.false_eq_true, if_false]
    rw [htext, n.scanValue_text, ← hval]
    exact scanNumber_text n hr p


theorem toDigits_lead (c : Nat) :
    (Nat.toDigits 10 c).head? = some '0' → Nat.toDigits 10 c = ['0'] := by
  intro h
  rcases Nat.eq_zero_or_pos c with rfl | hc
  · rfl
  · exact absurd h (toDigits_head?_ne_zero hc)

/-- An integer is written as its digits after a minus when it is negative. -/
theorem toString_int_toList (a : Int) :
    (toString a).toList = (if a < 0 then ['-'] else []) ++ Nat.toDigits 10 a.natAbs := by
  rw [Int.toString_eq_repr, Int.repr_eq_if]
  by_cases h : 0 ≤ a
  · rw [if_pos h, if_neg (by omega), Nat.toList_repr, List.nil_append]
    congr 2
    omega
  · rw [if_neg h, if_pos (by omega), String.toList_append, Nat.toList_repr]
    congr 2
    omega

/-- An integer's token reads back as that integer, when it has at most `maxIntDigits` digits. -/
theorem scanValue_intToken (a : Int) (hd : (Nat.toDigits 10 a.natAbs).length ≤ maxIntDigits)
    {rest : List Char} (hr : NumeralEnd rest) (fuel room p : Nat) :
    ∃ p', scanValue (fuel + 1) room ((toString a).toList ++ rest) p = .ok (.int a, rest, p') := by
  rw [toString_int_toList]
  obtain ⟨w, ws, hw⟩ := List.exists_cons_of_ne_nil (Nat.toDigits_ne_nil (b := 10) (n := a.natAbs))
  have hwd : w.isDigit := toDigits_isDigit a.natAbs w (by simp [hw])
  have hwne : w ≠ '-' := by rintro rfl; exact absurd hwd (by decide)
  have hsplit : splitMinus ((if a < 0 then ['-'] else []) ++ Nat.toDigits 10 a.natAbs ++ rest) =
      (decide (a < 0), Nat.toDigits 10 a.natAbs ++ rest) := by
    by_cases h : a < 0
    · simp [h, splitMinus]
    · simp [h, hw, splitMinus_of_ne hwne]
  have hwhole : wholeDigits (Nat.toDigits 10 a.natAbs ++ rest) = Nat.toDigits 10 a.natAbs :=
    wholeDigits_append Nat.toDigits_ne_nil (toDigits_isDigit _) (toDigits_lead _) hr.not_digit
  have hvalue : (if decide (a < 0) = true then -(digitsValue (Nat.toDigits 10 a.natAbs) : Int)
      else digitsValue (Nat.toDigits 10 a.natAbs)) = a := by
    rw [digitsValue_toDigits]
    by_cases h : a < 0
    · rw [if_pos (decide_eq_true h)]; omega
    · rw [if_neg (by simpa using h)]; omega
  have hscan : scanValue (fuel + 1) room
      ((if a < 0 then ['-'] else []) ++ Nat.toDigits 10 a.natAbs ++ rest) p =
      scanNumber ((if a < 0 then ['-'] else []) ++ Nat.toDigits 10 a.natAbs ++ rest) p := by
    by_cases h : a < 0
    · simp only [h, if_true, hw, List.cons_append, List.nil_append]
      exact scanValue_number p (.inr ⟨rfl, by simp [hwd]⟩)
    · simp only [h, if_false, hw, List.cons_append, List.nil_append]
      exact scanValue_number p (.inl hwd)
  rw [hscan]
  simp only [scanNumber, hsplit, hwhole, List.drop_left, fractionDigits_of_end hr,
    List.isEmpty_nil, if_true, exponentPart_of_end hr, gt_iff_lt, not_lt.2 hd, if_false,
    List.isEmpty_eq_false_iff.2 Nat.toDigits_ne_nil, Bool.false_eq_true, hvalue]
  exact ⟨_, rfl⟩

end Loot.Json
