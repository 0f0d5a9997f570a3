import Loot.Proofs.NumberToken
import Loot.Json.Coerce

/-!
# Written JSON reads back

The reader takes the writer's text of every `plain` value back to that value: no lone surrogate,
no integer longer than the reader accepts, no repeated key (`Value.pretty_reads_back`). The proof
reads the text through `Value.layout`, a plain function the writer agrees with within its nesting
bound (`prettyAt_eq_layout`), token by token (`scanValue_layout`).
-/

namespace Loot.Json

open Loot.Text Loot.Decimal

/-! ## Values that read back -/

mutual

/-- Whether a value written over several lines reads back as itself: no string or key holds a
lone surrogate, no integer has more digits than may be read, and no object repeats a key. -/
def Value.plain : Value → Bool
  | .int n => decide ((Nat.toDigits 10 n.natAbs).length ≤ maxIntDigits)
  | .str s => (charsOf? s.points).isSome
  | .arr items => plainItems items
  | .obj ms => decide (ms.map (·.1)).Nodup && plainMembers ms
  | _ => true

/-- Whether every item of an array reads back. -/
def plainItems : List Value → Bool
  | [] => true
  | v :: vs => v.plain && plainItems vs

/-- Whether every key and value of an object reads back. -/
def plainMembers : List (Chars × Value) → Bool
  | [] => true
  | (k, v) :: ms => (charsOf? k.points).isSome && v.plain && plainMembers ms

end

mutual

/-- How deep arrays and objects nest in a value; an empty one counts. -/
def Value.depth : Value → Nat
  | .arr items => depthItems items + 1
  | .obj ms => depthMembers ms + 1
  | _ => 0

/-- The deepest nesting among the items of an array. -/
def depthItems : List Value → Nat
  | [] => 0
  | v :: vs => max v.depth (depthItems vs)

/-- The deepest nesting among the values of an object. -/
def depthMembers : List (Chars × Value) → Nat
  | [] => 0
  | (_, v) :: ms => max v.depth (depthMembers ms)

end

mutual

/-- A bound on the nested steps that reading a value takes: one for the value, and one more for
each item or member on top of its own steps. -/
def Value.weight : Value → Nat
  | .arr items => weightItems items + 1
  | .obj ms => weightMembers ms + 1
  | _ => 1

/-- The steps of reading the items of an array. -/
def weightItems : List Value → Nat
  | [] => 0
  | v :: vs => v.weight + 1 + weightItems vs

/-- The steps of reading the members of an object. -/
def weightMembers : List (Chars × Value) → Nat
  | [] => 0
  | (_, v) :: ms => v.weight + 1 + weightMembers ms

end

mutual

/-- A value over several lines whose first line is already indented to `level`: the text the
writer gives when nothing fails. The items of an array and the members of an object come without
the indentation of their first line. -/
def Value.layout (level : Nat) : Value → String
  | .arr [] => "[]"
  | .arr (v :: vs) =>
    "[\n" ++ (indent (level + 1) ++ layoutItems (level + 1) (v :: vs)) ++ "\n" ++ indent level ++
      "]"
  | .obj [] => "\x7b\x7d"
  | .obj (m :: ms) =>
    "\x7b\n" ++ (indent (level + 1) ++ layoutMembers (level + 1) (m :: ms)) ++ "\n" ++
      indent level ++ "\x7d"
  | v => scalarToken v

/-- Array items, one per line at `level`, less the indentation of the first. -/
def layoutItems (level : Nat) : List Value → String
  | [] => ""
  | [v] => v.layout level
  | v :: vs => v.layout level ++ ",\n" ++ (indent level ++ layoutItems level vs)

/-- Object members, one per line at `level`, less the indentation of the first. -/
def layoutMembers (level : Nat) : List (Chars × Value) → String
  | [] => ""
  | [(k, v)] => quoteJson k ++ ": " ++ v.layout level
  | (k, v) :: ms =>
    quoteJson k ++ ": " ++ v.layout level ++ ",\n" ++ (indent level ++ layoutMembers level ms)

end

/-! ## String tokens -/

theorem charsOf?_map_char (cs : List Char) : charsOf? (cs.map .char) = some cs := by
  induction cs with
  | nil => rfl
  | cons c cs ih => simp [charsOf?, ih]

theorem eq_map_char_of_charsOf? : ∀ {ps : List CodePoint} {cs : List Char},
    charsOf? ps = some cs → ps = cs.map .char
  | [], _, h => by simp [charsOf?] at h; simp [← h]
  | .char c :: ps, cs, h => by
    obtain ⟨cs', h', rfl⟩ := Option.map_eq_some_iff.1 h
    simp [eq_map_char_of_charsOf? h']
  | .surrogate _ :: _, _, h => by simp [charsOf?] at h

/-- The token of a string without lone surrogates: its characters escaped, between quotes. -/
theorem quoteJson_toList (cs : List Char) :
    (quoteJson ⟨cs.map .char⟩).toList = '"' :: cs.flatMap escapeJson ++ ['"'] := by
  simp [quoteJson, List.flatMap_map, quoteJson.escapePoint]

/-- A string without lone surrogates is written as its token in any piece. -/
theorem pieceToken_of_chars (offset : Nat) (cs : List Char) :
    pieceToken offset ⟨cs.map .char⟩ = .ok (quoteJson ⟨cs.map .char⟩) := by
  have htok : tokenPoints ⟨cs.map .char⟩ = ('"' :: cs.flatMap escapeJson ++ ['"']).map .char := by
    simp [tokenPoints, List.flatMap_map, List.map_flatMap]
  simp only [pieceToken, stringToken, encodePoints, htok, charsOf?_map_char]
  rw [← quoteJson_toList, String.ofList_toList]
  rfl


theorem plain_str_iff {s : Chars} :
    (Value.str s).plain = true ↔ ∃ cs : List Char, s = ⟨cs.map .char⟩ := by
  constructor
  · intro h
    obtain ⟨cs, hcs⟩ := Option.isSome_iff_exists.1 (by simpa [Value.plain] using h)
    exact ⟨cs, by rw [← eq_map_char_of_charsOf? hcs]⟩
  · rintro ⟨cs, rfl⟩
    simp [Value.plain, charsOf?_map_char]

/-! ## The writer's text -/

/-- A plain string item is written as it is written anywhere else. -/
theorem prettyItem_eq_prettyAt {v : Value} (hv : v.plain = true) (room level : Nat) :
    prettyItem room level v = v.prettyAt room level := by
  cases v with
  | str s =>
    obtain ⟨cs, rfl⟩ := plain_str_iff.1 hv
    simp only [prettyItem, Value.prettyAt, pieceToken_of_chars]
  | _ => simp only [prettyItem]

mutual

/-- A plain value nested no deeper than the writer allows is written as its layout. -/
theorem prettyAt_eq_layout : ∀ (v : Value), v.plain = true → ∀ {room : Nat}, v.depth ≤ room →
    ∀ level, v.prettyAt room level = .ok (v.layout level)
  | .arr [], _, room, hd, level => by
    obtain ⟨r, rfl⟩ : ∃ r, room = r + 1 := ⟨room - 1, by simp [Value.depth] at hd; omega⟩
    simp only [Value.prettyAt, Value.layout]
  | .arr (v :: vs), hp, room, hd, level => by
    obtain ⟨r, rfl⟩ : ∃ r, room = r + 1 := ⟨room - 1, by simp [Value.depth] at hd; omega⟩
    have hitems := prettyItems_eq_layout (v :: vs) (by simpa [Value.plain] using hp)
      (show _ ≤ r by simp [Value.depth] at hd; omega) (level + 1) (List.cons_ne_nil v vs)
    simp only [Value.prettyAt, hitems, Value.layout]
    rfl
  | .obj [], _, room, hd, level => by
    obtain ⟨r, rfl⟩ : ∃ r, room = r + 1 := ⟨room - 1, by simp [Value.depth] at hd; omega⟩
    simp only [Value.prettyAt, Value.layout]
  | .obj (m :: ms), hp, room, hd, level => by
    obtain ⟨r, rfl⟩ : ∃ r, room = r + 1 := ⟨room - 1, by simp [Value.depth] at hd; omega⟩
    have hms := prettyMembers_eq_layout (m :: ms) (by simp [Value.plain] at hp; exact hp.2)
      (show _ ≤ r by simp [Value.depth] at hd; omega) (level + 1) (List.cons_ne_nil m ms)
    simp only [Value.prettyAt, hms, Value.layout]
    rfl
  | .str s, hp, room, _, level => by
    obtain ⟨cs, rfl⟩ := plain_str_iff.1 hp
    simp only [Value.prettyAt, pieceToken_of_chars, Value.layout, scalarToken]
  | .int n, hp, _, _, _ => by
    -- a plain integer has no more digits than a decimal text may have
    have hn : hasDecimalText n = true := hp
    simp only [Value.prettyAt, hn, if_true, Value.layout, scalarToken]
  | .null, _, _, _, _ | .bool _, _, _, _, _ | .float _, _, _, _, _ => by
    simp only [Value.prettyAt, Value.layout]
termination_by structural v => v

/-- Plain items are written one per line. -/
theorem prettyItems_eq_layout : ∀ (items : List Value), plainItems items = true →
    ∀ {room : Nat}, depthItems items ≤ room → ∀ level, items ≠ [] →
    prettyItems room level items = .ok (indent level ++ layoutItems level items)
  | [], _, _, _, _, h => absurd rfl h
  | [v], hp, room, hd, level, _ => by
    have hv : v.plain = true := by simp [plainItems] at hp; exact hp
    simp only [prettyItems, prettyItem_eq_prettyAt hv,
      prettyAt_eq_layout v hv (show _ ≤ room by simp [depthItems] at hd; omega) level, layoutItems]
    rfl
  | v :: w :: ws, hp, room, hd, level, _ => by
    simp only [plainItems, Bool.and_eq_true] at hp
    simp only [depthItems, Nat.max_le] at hd
    simp only [prettyItems, prettyItem_eq_prettyAt hp.1, prettyAt_eq_layout v hp.1 hd.1 level,
      prettyItems_eq_layout (w :: ws) (by simp [plainItems, hp.2.1, hp.2.2])
        (show _ ≤ room by simp [depthItems]; omega) level (List.cons_ne_nil w ws), layoutItems]
    simp only [String.append_assoc]
    rfl
termination_by structural items => items

/-- Plain members are written one per line. -/
theorem prettyMembers_eq_layout : ∀ (ms : List (Chars × Value)), plainMembers ms = true →
    ∀ {room : Nat}, depthMembers ms ≤ room → ∀ level, ms ≠ [] →
    prettyMembers room level ms = .ok (indent level ++ layoutMembers level ms)
  | [], _, _, _, _, h => absurd rfl h
  | [(k, v)], hp, room, hd, level, _ => by
    rw [plainMembers, Bool.and_eq_true, Bool.and_eq_true] at hp
    obtain ⟨cs, hcs⟩ := Option.isSome_iff_exists.1 hp.1.1
    obtain ⟨k⟩ := k
    obtain rfl := eq_map_char_of_charsOf? hcs
    simp only [prettyMembers, pieceToken_of_chars,
      prettyAt_eq_layout v hp.1.2 (show _ ≤ room by simp [depthMembers] at hd; omega) level,
      layoutMembers]
    simp only [String.append_assoc]
    rfl
  | (k, v) :: m :: ms, hp, room, hd, level, _ => by
    rw [plainMembers, Bool.and_eq_true, Bool.and_eq_true] at hp
    obtain ⟨cs, hcs⟩ := Option.isSome_iff_exists.1 hp.1.1
    obtain ⟨k⟩ := k
    obtain rfl := eq_map_char_of_charsOf? hcs
    simp only [depthMembers, Nat.max_le] at hd
    simp only [prettyMembers, pieceToken_of_chars, prettyAt_eq_layout v hp.1.2 hd.1 level,
      prettyMembers_eq_layout (m :: ms) hp.2
        (show _ ≤ room by simp only [depthMembers, Nat.max_le]; exact hd.2)
        level (List.cons_ne_nil m ms), layoutMembers]
    simp only [String.append_assoc]
    rfl
termination_by structural ms => ms

end

/-! ## Reading string tokens -/

theorem hexDigit?_digitChar : ∀ d : Nat, d < 16 → hexDigit? (Nat.digitChar d) = some d := by
  decide

theorem hex4?_hex4 {n : Nat} (h : n < 65536) :
    ∃ a b c d, hex4 n = [a, b, c, d] ∧ hex4? a b c d = some n := by
  refine ⟨_, _, _, _, rfl, ?_⟩
  simp only [hex4?, hexDigit?_digitChar _ (Nat.mod_lt _ (by decide : 16 > 0))]
  simp
  omega

/-- A `\u` escape of a code point below the surrogates is read as that code point, whatever
follows it, as long as something does. -/
theorem scanString_unicode {start p : Nat} {acc : List CodePoint} {a b c d : Char} {n : Nat}
    (hv : hex4? a b c d = some n) (hn : n < 0xD800) {more : List Char} (hm : more ≠ []) :
    scanString start ('\\' :: 'u' :: a :: b :: c :: d :: more) p acc =
      scanString start more (p + 6) (CodePoint.ofNat n :: acc) := by
  -- the reader looks ahead for a second escape that could complete a surrogate pair
  by_cases hpair : ∃ a' b' c' d' e rest, more = '\\' :: 'u' :: a' :: b' :: c' :: d' :: e :: rest
  · obtain ⟨a', b', c', d', e, rest, rfl⟩ := hpair
    rw [scanString.eq_5 _ _ _ _ _ _ _ _ _ _ _ _ _ _ hv, if_neg (by omega)]
  · exact scanString.eq_6 _ _ _ _ _ _ _ _ _ hm
      (fun a' b' c' d' e rest h => hpair ⟨a', b', c', d', e, rest, h⟩) hv

/-- A character that needs no escape is read as itself. -/
theorem scanString_plain {start p : Nat} {acc : List CodePoint} {c : Char} (hq : c ≠ '"')
    (hb : c ≠ '\\') (hc : ¬ c.toNat ≤ 0x1F) (more : List Char) :
    scanString start (c :: more) p acc = scanString start more (p + 1) (.char c :: acc) := by
  rw [scanString.eq_10 _ _ _ _ _ hq (fun _ _ _ _ _ h => absurd h hb) (fun _ h => absurd h hb)
    (fun _ _ h => absurd h hb) (fun h => absurd h hb), if_neg hc]

/-- One escaped character is read back as that character, whatever string text follows. -/
theorem scanString_escape (start : Nat) (c : Char) {more : List Char} (hm : more ≠ [])
    (p : Nat) (acc : List CodePoint) :
    scanString start (escapeJson c ++ more) p acc =
      scanString start more (p + (escapeJson c).length) (.char c :: acc) := by
  unfold escapeJson
  split
  case h_8 hq hb _ _ _ _ _ =>
    split
    · -- a control character goes as a `\u` escape of its code
      rename_i hlt
      obtain ⟨a, b, c', d, hh, hv⟩ := hex4?_hex4 (n := c.toNat) (by omega)
      have hc : CodePoint.ofNat c.toNat = .char c := by
        simp [CodePoint.ofNat]
        omega
      simp only [hh, List.cons_append, List.nil_append]
      rw [scanString_unicode hv (by omega) hm, hc]
      rfl
    · rename_i hge
      exact scanString_plain hq hb (by omega) more
  -- the seven one-letter escapes
  all_goals simp [scanString, escapeChar?]


/-- The escaped characters of a string, then the closing quote, read back as the string. -/
theorem scanString_escaped (start : Nat) : ∀ (cs rest : List Char) (p : Nat) (acc : List CodePoint),
    ∃ p', scanString start (cs.flatMap escapeJson ++ '"' :: rest) p acc =
      .ok (⟨acc.reverse ++ cs.map .char⟩, rest, p')
  | [], rest, p, acc => ⟨p + 1, by simp [scanString]⟩
  | c :: cs, rest, p, acc => by
    rw [List.flatMap_cons, List.append_assoc, scanString_escape start c (by simp) p acc]
    obtain ⟨p', h⟩ := scanString_escaped start cs rest (p + (escapeJson c).length) (.char c :: acc)
    exact ⟨p', by rw [h]; simp⟩

/-- The token of a string without lone surrogates reads back as the string. -/
theorem scanValue_quote (cs rest : List Char) (fuel room p : Nat) :
    ∃ p', scanValue (fuel + 1) room ((quoteJson ⟨cs.map .char⟩).toList ++ rest) p =
      .ok (.str ⟨cs.map .char⟩, rest, p') := by
  obtain ⟨p', h⟩ := scanString_escaped p cs rest (p + 1) []
  refine ⟨p', ?_⟩
  simp only [quoteJson_toList, List.cons_append, List.append_assoc]
  simp only [List.reverse_nil, List.nil_append] at h
  simp [scanValue, h]

/-! ## Blanks and first characters -/

theorem skipSpace_of_not_space {c : Char} (hc : isSpace c = false) (cs : List Char) (p : Nat) :
    skipSpace (c :: cs) p = (c :: cs, p) := by
  simp [skipSpace, hc]

/-- Blanks are skipped, whatever follows them. -/
theorem skipSpace_blanks : ∀ {bs : List Char}, (∀ b ∈ bs, isSpace b = true) → ∀ cs p,
    skipSpace (bs ++ cs) p = skipSpace cs (p + bs.length)
  | [], _, _, _ => rfl
  | b :: bs, h, cs, p => by
    rw [List.cons_append, skipSpace, if_pos (h b List.mem_cons_self),
      skipSpace_blanks (fun x hx => h x (List.mem_cons_of_mem b hx))]
    simp [Nat.add_assoc, Nat.add_comm 1]

/-- A line break and the indentation of the next line are blanks. -/
theorem lineBreak_blank (level : Nat) : ∀ b ∈ '\n' :: (indent level).toList, isSpace b = true := by
  simp [indent, isSpace]

/-- A digit is no blank and no closing bracket. -/
theorem digit_opens {c : Char} (h : c.isDigit = true) : isSpace c = false ∧ c ≠ ']' := by
  refine ⟨?_, ?_⟩
  · -- the four blanks are no digits
    cases hs : isSpace c
    · rfl
    · simp only [isSpace, Bool.or_eq_true, beq_iff_eq] at hs
      rcases hs with ((rfl | rfl) | rfl) | rfl <;> simp at h
  · rintro rfl
    simp at h

/-- A double's token starts with a digit, a minus or a letter. -/
theorem floatToken_head (x : Float) :
    ∃ c cs, (floatToken x).toList = c :: cs ∧ isSpace c = false ∧ c ≠ ']' := by
  rcases hb : Binary.ofFloat x with _ | neg | ⟨neg, m, q⟩
  · rw [Binary.eq_notANumber hb]
    exact ⟨'N', ['a', 'N'], by simp [floatToken]; decide, by decide, by decide⟩
  · rw [Binary.eq_infinity hb]
    cases neg
    · have h : infinity.isNaN = false ∧ infinity.isInf = true ∧ ¬ infinity < 0 := by decide
      exact ⟨'I', _, by simp only [floatToken, h, Bool.false_eq_true, if_false, if_true]; rfl,
        by decide, by decide⟩
    · have h : (-infinity).isNaN = false ∧ (-infinity).isInf = true ∧ -infinity < 0 := by decide
      exact ⟨'-', _, by simp only [floatToken, h, Bool.false_eq_true, if_false, if_true]; rfl,
        by decide, by decide⟩
  · obtain ⟨hnan, hinf⟩ := Binary.isNaN_isInf_of_finite hb
    obtain ⟨n, htext, -⟩ := exists_numeral_shortText hb
    have htok : (floatToken x).toList = n.text := by
      simp only [floatToken, hnan, hinf, Bool.false_eq_true, if_false, htext]
    obtain ⟨w, ws, hw⟩ := List.exists_cons_of_ne_nil n.whole_ne
    rw [htok, FloatNumeral.text, FloatNumeral.body, hw]
    cases n.neg
    · exact ⟨w, _, rfl, digit_opens (n.whole_digits w (by simp [hw]))⟩
    · exact ⟨'-', _, rfl, by decide, by decide⟩

/-- Every value's text starts with a character that is no blank and no closing bracket. -/
theorem layout_head (v : Value) (level : Nat) :
    ∃ c cs, (v.layout level).toList = c :: cs ∧ isSpace c = false ∧ c ≠ ']' := by
  cases v with
  | null => exact ⟨'n', _, by simp [Value.layout, scalarToken]; rfl, by decide, by decide⟩
  | bool b =>
    cases b
    · exact ⟨'f', _, by simp [Value.layout, scalarToken]; rfl, by decide, by decide⟩
    · exact ⟨'t', _, by simp [Value.layout, scalarToken]; rfl, by decide, by decide⟩
  | int n =>
    obtain ⟨w, ws, hw⟩ := List.exists_cons_of_ne_nil (Nat.toDigits_ne_nil (b := 10) (n := n.natAbs))
    have hwd : w.isDigit := toDigits_isDigit n.natAbs w (by simp [hw])
    simp only [Value.layout, scalarToken, toString_int_toList, hw]
    by_cases h : n < 0
    · exact ⟨'-', w :: ws, by simp [h], by decide, by decide⟩
    · exact ⟨w, ws, by simp [h], digit_opens hwd⟩
  | float x =>
    simp only [Value.layout, scalarToken]
    exact floatToken_head x
  | str s =>
    exact ⟨'"', _, by simp [Value.layout, scalarToken, quoteJson]; rfl, by decide, by decide⟩
  | arr items =>
    cases items with
    | nil => exact ⟨'[', _, by simp [Value.layout]; rfl, by decide, by decide⟩
    | cons v vs => exact ⟨'[', _, by simp [Value.layout]; rfl, by decide, by decide⟩
  | obj ms =>
    cases ms with
    | nil => exact ⟨'\x7b', _, by simp [Value.layout]; rfl, by decide, by decide⟩
    | cons m ms => exact ⟨'\x7b', _, by simp [Value.layout]; rfl, by decide, by decide⟩

/-! ## Steps of the reader -/

section Steps

variable {fuel room p q : Nat} {c : Char} {cs rest : List Char}

/-- An array that is not empty: its items are read from where the blanks after the bracket end. -/
theorem scanValue_open_array (h : skipSpace rest (p + 1) = (c :: cs, q)) (hc : c ≠ ']') :
    scanValue (fuel + 1) (room + 1) ('[' :: rest) p = scanItems fuel room [] (c :: cs) q := by
  simp only [scanValue, h]
  split <;> simp_all

/-- An object that is not empty: its members are read from where the blanks after the brace end,
at the quote of the first key. -/
theorem scanValue_open_object (h : skipSpace rest (p + 1) = ('"' :: cs, q)) :
    scanValue (fuel + 1) (room + 1) ('\x7b' :: rest) p =
      scanMembers fuel room [] ('"' :: cs) q := by
  simp only [scanValue, h]
  split <;> simp_all

variable {acc : List Value} {v : Value} {r₁ r₂ r₃ : List Char} {p₁ p₂ p₃ : Nat}

/-- An item followed by a comma: the items go on after the blanks that follow. -/
theorem scanItems_next (hv : scanValue fuel room cs p = .ok (v, r₁, p₁))
    (hs : skipSpace r₁ p₁ = (',' :: r₂, p₂)) (hs' : skipSpace r₂ (p₂ + 1) = (r₃, p₃)) :
    scanItems (fuel + 1) room acc cs p = scanItems fuel room (v :: acc) r₃ p₃ := by
  simp only [scanItems, hv, hs, hs']

/-- An item followed by the closing bracket ends the array. -/
theorem scanItems_last (hv : scanValue fuel room cs p = .ok (v, r₁, p₁))
    (hs : skipSpace r₁ p₁ = (']' :: r₂, p₂)) :
    scanItems (fuel + 1) room acc cs p = .ok (.arr (v :: acc).reverse, r₂, p₂ + 1) := by
  simp only [scanItems, hv, hs]

variable {accm : List (Chars × Value)} {key : Chars} {r₄ r₅ r₆ : List Char} {p₄ p₅ p₆ : Nat}

/-- A member, that is a key, a colon and a value, followed by a comma: the members go on after
the blanks that follow. -/
theorem scanMembers_next (hk : scanString p cs (p + 1) [] = .ok (key, r₁, p₁))
    (hc : skipSpace r₁ p₁ = (':' :: r₂, p₂)) (hs : skipSpace r₂ (p₂ + 1) = (r₃, p₃))
    (hv : scanValue fuel room r₃ p₃ = .ok (v, r₄, p₄))
    (h₅ : skipSpace r₄ p₄ = (',' :: r₅, p₅)) (h₆ : skipSpace r₅ (p₅ + 1) = (r₆, p₆)) :
    scanMembers (fuel + 1) room accm ('"' :: cs) p =
      scanMembers fuel room (Value.setMember accm key v) r₆ p₆ := by
  simp only [scanMembers, hk, hc, hs, hv, h₅, h₆]

/-- A member followed by the closing brace ends the object. -/
theorem scanMembers_last (hk : scanString p cs (p + 1) [] = .ok (key, r₁, p₁))
    (hc : skipSpace r₁ p₁ = (':' :: r₂, p₂)) (hs : skipSpace r₂ (p₂ + 1) = (r₃, p₃))
    (hv : scanValue fuel room r₃ p₃ = .ok (v, r₄, p₄))
    (h₅ : skipSpace r₄ p₄ = ('\x7d' :: r₅, p₅)) :
    scanMembers (fuel + 1) room accm ('"' :: cs) p =
      .ok (.obj (Value.setMember accm key v), r₅, p₅ + 1) := by
  simp only [scanMembers, hk, hc, hs, hv, h₅]

end Steps

/-- A key that is not yet present goes at the end. -/
theorem setMember_of_not_mem {ms : List (Chars × Value)} {key : Chars}
    (h : key ∉ ms.map (·.1)) (v : Value) : Value.setMember ms key v = ms ++ [(key, v)] := by
  have hany : ms.any (·.1 == key) = false := by
    simpa [List.any_eq_false] using fun m hm hk => h (List.mem_map.2 ⟨m, hm, hk⟩)
  simp [Value.setMember, hany]

/-! ## Reading the text back -/

theorem numeralEnd_cons {c : Char} (h : c.isDigit = false ∧ c ≠ '.' ∧ c ≠ 'e' ∧ c ≠ 'E')
    (cs : List Char) : NumeralEnd (c :: cs) := by
  intro ch hch
  simp only [List.head?_cons, Option.mem_def, Option.some.injEq] at hch
  exact hch ▸ h

/-- A line break and an indentation are skipped up to what follows them. -/
theorem skipSpace_lineBreak (level : Nat) {c : Char} (hc : isSpace c = false) (cs : List Char)
    (p : Nat) : ∃ q, skipSpace ('\n' :: ((indent level).toList ++ c :: cs)) p = (c :: cs, q) :=
  ⟨_, by rw [← List.cons_append, skipSpace_blanks (lineBreak_blank level),
    skipSpace_of_not_space hc]⟩

/-- The items of an array start as their first item does. -/
theorem layoutItems_head (v : Value) (vs : List Value) (level : Nat) :
    ∃ c cs, (layoutItems level (v :: vs)).toList = c :: cs ∧ isSpace c = false ∧ c ≠ ']' := by
  obtain ⟨c, cs, hcs, hc⟩ := layout_head v level
  cases vs with
  | nil => exact ⟨c, cs, by simp [layoutItems, hcs], hc⟩
  | cons w ws => exact ⟨c, _, by simp [layoutItems, hcs]; rfl, hc⟩

/-- The members of an object start with the quote of the first key. -/
theorem layoutMembers_head (m : Chars × Value) (ms : List (Chars × Value)) (level : Nat) :
    ∃ t, (layoutMembers level (m :: ms)).toList = '"' :: t := by
  obtain ⟨k, v⟩ := m
  cases ms with
  | nil => exact ⟨_, by simp [layoutMembers, quoteJson]; rfl⟩
  | cons m' ms' => exact ⟨_, by simp [layoutMembers, quoteJson]; rfl⟩

/-- The space after a colon is skipped up to the value. -/
theorem skipSpace_space {c : Char} (hc : isSpace c = false) (cs : List Char) (p : Nat) :
    skipSpace (' ' :: c :: cs) p = (c :: cs, p + 1) := by
  rw [skipSpace, if_pos (by decide), skipSpace_of_not_space hc]

mutual

/-- The layout of a plain value reads back as the value, whatever follows it that cannot continue
a number, given as many steps as the value weighs and room for its nesting. -/
theorem scanValue_layout : ∀ (v : Value), v.plain = true → ∀ {fuel room : Nat}, v.weight ≤ fuel →
    v.depth ≤ room → ∀ (level : Nat) {rest : List Char}, NumeralEnd rest → ∀ p,
    ∃ p', scanValue fuel room ((v.layout level).toList ++ rest) p = .ok (v, rest, p')
  | .arr [], _, fuel, room, hw, hd, level, rest, _, p => by
    obtain ⟨f, rfl⟩ : ∃ f, fuel = f + 1 := ⟨fuel - 1, by simp only [Value.weight] at hw; omega⟩
    obtain ⟨r, rfl⟩ : ∃ r, room = r + 1 := ⟨room - 1, by simp only [Value.depth] at hd; omega⟩
    exact ⟨p + 2, by simp [Value.layout, scanValue, skipSpace, isSpace]⟩
  | .arr (v :: vs), hp, fuel, room, hw, hd, level, rest, _, p => by
    obtain ⟨f, rfl⟩ : ∃ f, fuel = f + 1 := ⟨fuel - 1, by simp only [Value.weight] at hw; omega⟩
    obtain ⟨r, rfl⟩ : ∃ r, room = r + 1 := ⟨room - 1, by simp only [Value.depth] at hd; omega⟩
    -- the blanks after the bracket end where the first item starts
    obtain ⟨c, cs, hcs, hsp, hne⟩ := layoutItems_head v vs (level + 1)
    obtain ⟨q, hq⟩ := skipSpace_lineBreak (level + 1) hsp
      (cs ++ '\n' :: ((indent level).toList ++ ']' :: rest)) (p + 1)
    obtain ⟨p', hitems⟩ := scanItems_layout (v :: vs) (by simpa [Value.plain] using hp)
      (List.cons_ne_nil v vs) (show _ ≤ f by simp only [Value.weight] at hw; omega)
      (show _ ≤ r by simp only [Value.depth] at hd; omega) level [] rest q
    refine ⟨p', ?_⟩
    rw [hcs] at hitems
    simp only [Value.layout, String.toList_append, hcs, List.append_assoc, List.cons_append,
      String.reduceToList, List.nil_append]
    rw [scanValue_open_array hq hne]
    simpa using hitems
  | .obj [], _, fuel, room, hw, hd, level, rest, _, p => by
    obtain ⟨f, rfl⟩ : ∃ f, fuel = f + 1 := ⟨fuel - 1, by simp only [Value.weight] at hw; omega⟩
    obtain ⟨r, rfl⟩ : ∃ r, room = r + 1 := ⟨room - 1, by simp only [Value.depth] at hd; omega⟩
    exact ⟨p + 2, by simp [Value.layout, scanValue, skipSpace, isSpace]⟩
  | .obj (m :: ms), hp, fuel, room, hw, hd, level, rest, _, p => by
    obtain ⟨f, rfl⟩ : ∃ f, fuel = f + 1 := ⟨fuel - 1, by simp only [Value.weight] at hw; omega⟩
    obtain ⟨r, rfl⟩ : ∃ r, room = r + 1 := ⟨room - 1, by simp only [Value.depth] at hd; omega⟩
    rw [Value.plain, Bool.and_eq_true, decide_eq_true_eq] at hp
    -- the blanks after the brace end at the quote of the first key
    obtain ⟨t, ht⟩ := layoutMembers_head m ms (level + 1)
    obtain ⟨q, hq⟩ := skipSpace_lineBreak (level + 1) (c := '"') (by decide)
      (t ++ '\n' :: ((indent level).toList ++ '\x7d' :: rest)) (p + 1)
    obtain ⟨p', hms⟩ := scanMembers_layout (m :: ms) hp.2 (List.cons_ne_nil m ms)
      (show _ ≤ f by simp only [Value.weight] at hw; omega)
      (show _ ≤ r by simp only [Value.depth] at hd; omega) level [] (by simpa using hp.1) rest q
    refine ⟨p', ?_⟩
    rw [ht, List.cons_append] at hms
    simp only [Value.layout, String.toList_append, ht, List.append_assoc, List.cons_append,
      String.reduceToList, List.nil_append]
    rw [scanValue_open_object hq]
    simpa using hms
  | .str s, hp, fuel, room, hw, _, level, rest, _, p => by
    obtain ⟨f, rfl⟩ : ∃ f, fuel = f + 1 := ⟨fuel - 1, by simp only [Value.weight] at hw; omega⟩
    obtain ⟨cs, rfl⟩ := plain_str_iff.1 hp
    exact scanValue_quote cs rest f room p
  | .null, _, fuel, room, hw, _, level, rest, _, p => by
    obtain ⟨f, rfl⟩ : ∃ f, fuel = f + 1 := ⟨fuel - 1, by simp only [Value.weight] at hw; omega⟩
    exact ⟨p + 4, by simp [Value.layout, scalarToken, scanValue]⟩
  | .bool b, _, fuel, room, hw, _, level, rest, _, p => by
    obtain ⟨f, rfl⟩ : ∃ f, fuel = f + 1 := ⟨fuel - 1, by simp only [Value.weight] at hw; omega⟩
    cases b
    · exact ⟨p + 5, by simp [Value.layout, scalarToken, scanValue]⟩
    · exact ⟨p + 4, by simp [Value.layout, scalarToken, scanValue]⟩
  | .int n, hp, fuel, room, hw, _, level, rest, hr, p => by
    obtain ⟨f, rfl⟩ : ∃ f, fuel = f + 1 := ⟨fuel - 1, by simp only [Value.weight] at hw; omega⟩
    exact scanValue_intToken n (by simpa [Value.plain] using hp) hr f room p
  | .float x, _, fuel, room, hw, _, level, rest, hr, p => by
    obtain ⟨f, rfl⟩ : ∃ f, fuel = f + 1 := ⟨fuel - 1, by simp only [Value.weight] at hw; omega⟩
    exact scanValue_floatToken x hr f room p
termination_by structural v => v

/-- The items of a plain array read back, each after the one before. -/
theorem scanItems_layout : ∀ (items : List Value), plainItems items = true → items ≠ [] →
    ∀ {fuel room : Nat}, weightItems items ≤ fuel → depthItems items ≤ room →
    ∀ (level : Nat) (acc : List Value) (rest : List Char) (p : Nat), ∃ p',
      scanItems fuel room acc ((layoutItems (level + 1) items).toList ++
        '\n' :: ((indent level).toList ++ ']' :: rest)) p =
        .ok (.arr (acc.reverse ++ items), rest, p')
  | [], _, h, _, _, _, _, _, _, _, _ => absurd rfl h
  | v :: vs, hp, _, fuel, room, hw, hd, level, acc, rest, p => by
    rw [plainItems, Bool.and_eq_true] at hp
    obtain ⟨f, rfl⟩ : ∃ f, fuel = f + 1 := ⟨fuel - 1, by simp only [weightItems] at hw; omega⟩
    have hwv : v.weight ≤ f := by simp only [weightItems] at hw; omega
    have hdv : v.depth ≤ room := by simp only [depthItems] at hd; omega
    -- what follows the items: a line break, the indentation and the closing bracket
    have hend : ∀ p, ∃ q, skipSpace ('\n' :: ((indent level).toList ++ ']' :: rest)) p =
        (']' :: rest, q) := skipSpace_lineBreak level (by decide) rest
    cases vs with
    | nil =>
      -- the last item is followed by the end of the array
      obtain ⟨p₁, hv⟩ := scanValue_layout v hp.1 hwv hdv (level + 1)
        (numeralEnd_cons (c := '\n') (by decide) ((indent level).toList ++ ']' :: rest)) p
      obtain ⟨p₂, hs⟩ := hend p₁
      refine ⟨p₂ + 1, ?_⟩
      simp only [layoutItems]
      rw [scanItems_last hv hs]
      simp
    | cons w ws =>
      -- the comma is read, the line break and indentation after it skipped, and the next items read
      obtain ⟨c, cs, hcs, hsp, -⟩ := layoutItems_head w ws (level + 1)
      obtain ⟨p₁, hv⟩ := scanValue_layout v hp.1 hwv hdv (level + 1)
        (numeralEnd_cons (c := ',') (by decide) ('\n' :: ((indent (level + 1)).toList ++
          (c :: (cs ++ '\n' :: ((indent level).toList ++ ']' :: rest)))))) p
      obtain ⟨p₃, hs'⟩ := skipSpace_lineBreak (level + 1) hsp
        (cs ++ '\n' :: ((indent level).toList ++ ']' :: rest)) (p₁ + 1)
      obtain ⟨p', hrest⟩ := scanItems_layout (w :: ws) hp.2 (List.cons_ne_nil w ws)
        (show _ ≤ f by simp only [weightItems] at hw ⊢; omega)
        (show _ ≤ room by simp only [depthItems] at hd ⊢; omega) level (v :: acc) rest p₃
      refine ⟨p', ?_⟩
      rw [hcs, List.cons_append] at hrest
      simp only [layoutItems, String.toList_append, hcs, List.append_assoc, List.cons_append,
        String.reduceToList, List.nil_append]
      rw [scanItems_next hv (skipSpace_of_not_space (by decide) _ _) hs', hrest]
      simp
termination_by structural items => items

/-- The members of a plain object read back, each after the one before, none of their keys
read before. -/
theorem scanMembers_layout : ∀ (ms : List (Chars × Value)), plainMembers ms = true → ms ≠ [] →
    ∀ {fuel room : Nat}, weightMembers ms ≤ fuel → depthMembers ms ≤ room →
    ∀ (level : Nat) (acc : List (Chars × Value)), (acc.map (·.1) ++ ms.map (·.1)).Nodup →
    ∀ (rest : List Char) (p : Nat), ∃ p',
      scanMembers fuel room acc ((layoutMembers (level + 1) ms).toList ++
        '\n' :: ((indent level).toList ++ '\x7d' :: rest)) p = .ok (.obj (acc ++ ms), rest, p')
  | [], _, h, _, _, _, _, _, _, _, _, _ => absurd rfl h
  | (k, v) :: ms, hp, _, fuel, room, hw, hd, level, acc, hnd, rest, p => by
    rw [plainMembers, Bool.and_eq_true, Bool.and_eq_true] at hp
    obtain ⟨cs, hcs⟩ := Option.isSome_iff_exists.1 hp.1.1
    obtain ⟨k⟩ := k
    obtain rfl := eq_map_char_of_charsOf? hcs
    obtain ⟨f, rfl⟩ : ∃ f, fuel = f + 1 := ⟨fuel - 1, by simp only [weightMembers] at hw; omega⟩
    have hwv : v.weight ≤ f := by simp only [weightMembers] at hw; omega
    have hdv : v.depth ≤ room := by simp only [depthMembers] at hd; omega
    -- the key has not been read before, so it goes at the end
    have hnew : (⟨cs.map .char⟩ : Chars) ∉ acc.map (·.1) := by
      intro h
      simp only [List.map_cons, List.nodup_append, List.mem_cons] at hnd
      exact hnd.2.2 _ h _ (.inl rfl) rfl
    -- the key, the colon and the space after it are read up to the value
    obtain ⟨c', cs', hcs', hsp', -⟩ := layout_head v (level + 1)
    have hkey : ∀ tail, ∃ p₁, scanString p (cs.flatMap escapeJson ++ '"' :: ':' :: ' ' ::
        c' :: (cs' ++ tail)) (p + 1) [] =
        .ok (⟨cs.map .char⟩, ':' :: ' ' :: c' :: (cs' ++ tail), p₁) := by
      intro tail
      simpa using scanString_escaped p cs (':' :: ' ' :: c' :: (cs' ++ tail)) (p + 1) []
    cases ms with
    | nil =>
      obtain ⟨p₁, hk⟩ := hkey ('\n' :: ((indent level).toList ++ '\x7d' :: rest))
      obtain ⟨p₄, hv⟩ := scanValue_layout v hp.1.2 hwv hdv (level + 1)
        (numeralEnd_cons (c := '\n') (by decide) ((indent level).toList ++ '\x7d' :: rest))
        (p₁ + 1 + 1)
      rw [hcs', List.cons_append] at hv
      obtain ⟨p₅, h₅⟩ := skipSpace_lineBreak level (c := '\x7d') (by decide) rest p₄
      refine ⟨p₅ + 1, ?_⟩
      simp only [layoutMembers, String.toList_append, quoteJson_toList, hcs', List.append_assoc,
        List.cons_append, String.reduceToList, List.nil_append]
      rw [scanMembers_last hk (skipSpace_of_not_space (by decide) _ _) (skipSpace_space hsp' _ _)
          hv h₅,
        setMember_of_not_mem hnew v]
    | cons m ms =>
      obtain ⟨t, ht⟩ := layoutMembers_head m ms (level + 1)
      have htail : NumeralEnd (',' :: '\n' :: ((indent (level + 1)).toList ++
          '"' :: (t ++ '\n' :: ((indent level).toList ++ '\x7d' :: rest)))) :=
        numeralEnd_cons (c := ',') (by decide) _
      obtain ⟨p₁, hk⟩ := hkey _
      obtain ⟨p₄, hv⟩ := scanValue_layout v hp.1.2 hwv hdv (level + 1) htail (p₁ + 1 + 1)
      rw [hcs', List.cons_append] at hv
      obtain ⟨p₆, h₆⟩ := skipSpace_lineBreak (level + 1) (c := '"') (by decide)
        (t ++ '\n' :: ((indent level).toList ++ '\x7d' :: rest)) (p₄ + 1)
      obtain ⟨p', hrest⟩ := scanMembers_layout (m :: ms) hp.2 (List.cons_ne_nil m ms)
        (show _ ≤ f by simp only [weightMembers] at hw ⊢; omega)
        (show _ ≤ room by simp only [depthMembers] at hd ⊢; omega) level (acc ++ [(⟨cs.map .char⟩, v)])
        (by simpa using hnd) rest p₆
      refine ⟨p', ?_⟩
      rw [ht, List.cons_append] at hrest
      simp only [layoutMembers, String.toList_append, quoteJson_toList, hcs', ht, List.append_assoc,
        List.cons_append, String.reduceToList, List.nil_append]
      rw [scanMembers_next hk (skipSpace_of_not_space (by decide) _ _) (skipSpace_space hsp' _ _) hv
        (skipSpace_of_not_space (by decide) _ _) h₆, setMember_of_not_mem hnew v, hrest]
      simp
termination_by structural ms => ms

end

/-! ## No carriage return -/

theorem digitChar_ne_cr : ∀ d : Nat, d < 16 → Nat.digitChar d ≠ '\r' := by
  decide

theorem cr_not_mem_hex4 (n : Nat) : '\r' ∉ hex4 n := by
  simp only [hex4, List.map_cons, List.map_nil, List.mem_cons, List.not_mem_nil, or_false]
  rintro (h | h | h | h) <;>
    exact digitChar_ne_cr _ (Nat.mod_lt _ (by decide)) h.symm

/-- Escaping writes a carriage return as a backslash and a letter. -/
theorem cr_not_mem_escapeJson (c : Char) : '\r' ∉ escapeJson c := by
  unfold escapeJson
  split
  case h_8 =>
    split
    · simpa using cr_not_mem_hex4 c.toNat
    · rename_i hge
      simp only [List.mem_singleton]
      rintro rfl
      exact hge (by decide)
  -- a one-letter escape is a backslash and a letter
  all_goals simp

theorem cr_not_mem_quoteJson (s : Chars) : '\r' ∉ (quoteJson s).toList := by
  simp only [quoteJson, String.toList_ofList, List.cons_append, List.mem_cons, List.mem_append,
    List.mem_flatMap, not_or]
  refine ⟨by decide, fun ⟨p, _, hp⟩ => ?_, by decide⟩
  cases p with
  | char c => exact cr_not_mem_escapeJson c hp
  | surrogate o =>
    simp only [quoteJson.escapePoint, List.mem_cons] at hp
    rcases hp with h | h | h
    · exact absurd h (by decide)
    · exact absurd h (by decide)
    · exact cr_not_mem_hex4 _ h

/-- A numeral is made of digits, a point, an exponent marker and signs. -/
theorem FloatNumeral.cr_not_mem_text (n : FloatNumeral) : '\r' ∉ n.text := by
  have hdigit : ∀ {ds : List Char}, (∀ ch ∈ ds, ch.isDigit) → '\r' ∉ ds := fun hds h => by
    simpa using hds _ h
  simp only [FloatNumeral.text, FloatNumeral.body, List.mem_append, not_or]
  refine ⟨by split <;> simp, hdigit n.whole_digits, ?_, ?_⟩
  · unfold FloatNumeral.fractionText
    split
    · simp
    · simpa using hdigit n.frac_digits
  · unfold FloatNumeral.exponentText
    split
    · simp
    · rename_i en ds h
      simp only [List.mem_cons, not_or]
      exact ⟨by decide, by split <;> decide, hdigit (n.exponent_digits en ds h).2⟩

theorem cr_not_mem_floatToken (x : Float) : '\r' ∉ (floatToken x).toList := by
  rcases hb : Binary.ofFloat x with _ | neg | ⟨neg, m, q⟩
  · rw [Binary.eq_notANumber hb]
    simp [floatToken]; decide
  · rw [Binary.eq_infinity hb]
    cases neg
    · have h : infinity.isNaN = false ∧ infinity.isInf = true ∧ ¬ infinity < 0 := by decide
      simp only [floatToken, h, Bool.false_eq_true, if_false, if_true]
      decide
    · have h : (-infinity).isNaN = false ∧ (-infinity).isInf = true ∧ -infinity < 0 := by decide
      simp only [floatToken, h, Bool.false_eq_true, if_false, if_true]
      decide
  · obtain ⟨hnan, hinf⟩ := Binary.isNaN_isInf_of_finite hb
    obtain ⟨n, htext, -⟩ := exists_numeral_shortText hb
    simp only [floatToken, hnan, hinf, Bool.false_eq_true, if_false, htext]
    exact n.cr_not_mem_text

theorem cr_not_mem_indent (level : Nat) : '\r' ∉ (indent level).toList := by
  simp [indent]

mutual

/-- A value's text holds no carriage return, so reading it as a text file changes nothing. -/
theorem cr_not_mem_layout : ∀ (v : Value) (level : Nat), '\r' ∉ (v.layout level).toList
  | .arr [], _ => by simp [Value.layout]
  | .arr (v :: vs), level => by
    have h := cr_not_mem_layoutItems (v :: vs) (level + 1)
    simp [Value.layout, cr_not_mem_indent, h]
  | .obj [], _ => by simp [Value.layout]
  | .obj (m :: ms), level => by
    have h := cr_not_mem_layoutMembers (m :: ms) (level + 1)
    simp [Value.layout, cr_not_mem_indent, h]
  | .str s, _ => cr_not_mem_quoteJson s
  | .float x, _ => cr_not_mem_floatToken x
  | .int n, _ => by
    simp only [Value.layout, scalarToken, toString_int_toList, List.mem_append, not_or]
    refine ⟨by split <;> simp, fun h => ?_⟩
    simpa using toDigits_isDigit n.natAbs _ h
  | .null, _ => by simp [Value.layout, scalarToken]
  | .bool b, _ => by cases b <;> simp [Value.layout, scalarToken]

theorem cr_not_mem_layoutItems : ∀ (items : List Value) (level : Nat),
    '\r' ∉ (layoutItems level items).toList
  | [], _ => by simp [layoutItems]
  | [v], level => by simpa [layoutItems] using cr_not_mem_layout v level
  | v :: w :: ws, level => by
    have hv := cr_not_mem_layout v level
    have hws := cr_not_mem_layoutItems (w :: ws) level
    simp [layoutItems, hv, hws, cr_not_mem_indent]

theorem cr_not_mem_layoutMembers : ∀ (ms : List (Chars × Value)) (level : Nat),
    '\r' ∉ (layoutMembers level ms).toList
  | [], _ => by simp [layoutMembers]
  | [(k, v)], level => by
    simp [layoutMembers, cr_not_mem_quoteJson k, cr_not_mem_layout v level]
  | (k, v) :: m :: ms, level => by
    have hms := cr_not_mem_layoutMembers (m :: ms) level
    simp [layoutMembers, cr_not_mem_quoteJson k, cr_not_mem_layout v level, hms, cr_not_mem_indent]

end

/-! ## Enough steps -/

theorem one_le_length_layout (v : Value) (level : Nat) : 1 ≤ (v.layout level).toList.length := by
  obtain ⟨c, cs, hcs, -⟩ := layout_head v level
  simp [hcs]

mutual

/-- A value's text is at least as long as the value weighs, so reading a text never runs short
of steps on the values written in it. -/
theorem weight_le_length : ∀ (v : Value) (level : Nat), v.weight ≤ (v.layout level).toList.length
  | .arr [], _ => by simp [Value.weight, Value.layout, weightItems]
  | .arr (v :: vs), level => by
    have h := weightItems_le_length (v :: vs) (level + 1) (List.cons_ne_nil v vs)
    simp only [Value.weight, Value.layout, String.toList_append, List.length_append,
      String.reduceToList, List.length_cons, List.length_nil]
    omega
  | .obj [], _ => by simp [Value.weight, Value.layout, weightMembers]
  | .obj (m :: ms), level => by
    have h := weightMembers_le_length (m :: ms) (level + 1) (List.cons_ne_nil m ms)
    simp only [Value.weight, Value.layout, String.toList_append, List.length_append,
      String.reduceToList, List.length_cons, List.length_nil]
    omega
  | .null, level | .bool _, level | .int _, level | .float _, level | .str _, level => by
    simp only [Value.weight]
    exact one_le_length_layout _ level

theorem weightItems_le_length : ∀ (items : List Value) (level : Nat), items ≠ [] →
    weightItems items ≤ (layoutItems level items).toList.length + 1
  | [], _, h => absurd rfl h
  | [v], level, _ => by
    have h := weight_le_length v level
    simp only [weightItems, layoutItems]
    omega
  | v :: w :: ws, level, _ => by
    have hv := weight_le_length v level
    have hws := weightItems_le_length (w :: ws) level (List.cons_ne_nil w ws)
    simp only [weightItems, layoutItems, String.toList_append, List.length_append,
      String.reduceToList, List.length_cons, List.length_nil] at hws ⊢
    omega

theorem weightMembers_le_length : ∀ (ms : List (Chars × Value)) (level : Nat), ms ≠ [] →
    weightMembers ms ≤ (layoutMembers level ms).toList.length + 1
  | [], _, h => absurd rfl h
  | [(k, v)], level, _ => by
    have h := weight_le_length v level
    simp only [weightMembers, layoutMembers, String.toList_append, List.length_append]
    omega
  | (k, v) :: m :: ms, level, _ => by
    have hv := weight_le_length v level
    have hms := weightMembers_le_length (m :: ms) level (List.cons_ne_nil m ms)
    simp only [weightMembers, layoutMembers, String.toList_append, List.length_append,
      String.reduceToList, List.length_cons, List.length_nil] at hms ⊢
    omega

end

/-! ## Reading a written array -/

/-- A plain array, written over several lines and ended by a line feed, reads back as itself
when the reader has room for its nesting. -/
theorem read_layout {items : List Value} (hp : (Value.arr items).plain = true) {room : Nat}
    (hd : (Value.arr items).depth ≤ room) :
    Value.read room ((Value.arr items).layout 0 ++ "\n") = .ok (.arr items) := by
  obtain ⟨cs, hcs⟩ : ∃ cs, ((Value.arr items).layout 0).toList = '[' :: cs := by
    cases items with
    | nil => exact ⟨_, by simp [Value.layout]; rfl⟩
    | cons v vs => exact ⟨_, by simp [Value.layout]; rfl⟩
  have hw := weight_le_length (.arr items) 0
  obtain ⟨p', hscan⟩ := scanValue_layout (.arr items) hp
    (show _ ≤ 2 * ('[' :: cs ++ ['\n']).length + 2 by
      rw [hcs] at hw
      simp only [List.length_cons, List.length_append, List.length_nil] at hw ⊢
      omega) hd 0
    (show NumeralEnd ['\n'] from numeralEnd_cons (c := '\n') (by decide) []) 0
  rw [hcs] at hscan
  simp only [Value.read, String.toList_append, hcs, String.reduceToList]
  simp only [List.cons_append] at hscan ⊢
  rw [skipSpace_of_not_space (by decide), hscan]
  simp [skipSpace, isSpace]

/-- A plain array nested no deeper than the writer and the reader allow is written over several
lines, without a carriage return, and that text, ended by a line feed, reads back as the array. -/
theorem Value.pretty_reads_back {items : List Value} (hp : (Value.arr items).plain = true)
    {wroom rroom : Nat} (hw : (Value.arr items).depth ≤ wroom)
    (hr : (Value.arr items).depth ≤ rroom) :
    ∃ t, (Value.arr items).pretty wroom = .ok t ∧ '\r' ∉ t.toList ∧
      Value.read rroom (t ++ "\n") = .ok (.arr items) :=
  ⟨_, prettyAt_eq_layout _ hp hw 0, cr_not_mem_layout _ 0, read_layout hp hr⟩

end Loot.Json
