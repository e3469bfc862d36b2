import ActiveTs.Lib.Binary64

/-! # Numbers of JavaScript and their texts

`Number::toString` writes the shortest decimal that rounds to the number, `StringToNumber` rounds a
decimal to a number. What the first writes the second reads back. -/

inductive JsNumber
  | nan
  | infinite (negative : Bool)
  | negativeZero
  | finite (value : Binary64.Finite)
  deriving DecidableEq

namespace JsNumber

/-! ## Decimal literals -/

/-- A decimal literal without sign. -/
structure Literal where
  whole : List Char
  fraction : List Char
  exponent : Option Int

namespace Literal

def value (l : Literal) : ℚ :=
  Nat.ofDigitChars 10 (l.whole ++ l.fraction) 0 * 10 ^ (l.exponent.getD 0 - l.fraction.length)

def exponentText : Option Int → List Char
  | none => []
  | some e => 'e' :: (if e < 0 then '-' else '+') :: Nat.toDigits 10 e.natAbs

def fractionText : List Char → List Char
  | [] => []
  | fraction => '.' :: fraction

def text (l : Literal) : List Char := l.whole ++ fractionText l.fraction ++ exponentText l.exponent

end Literal

def readDigits (digits : List Char) : Option Nat :=
  if digits ≠ [] ∧ digits.all Char.isDigit then some (Nat.ofDigitChars 10 digits 0) else none

def readInteger : List Char → Option Int
  | [] => none
  | c :: rest =>
    if c = '-' then (readDigits rest).map fun (n : Nat) => -(n : Int)
    else if c = '+' then (readDigits rest).map fun (n : Nat) => (n : Int)
    else (readDigits (c :: rest)).map fun (n : Nat) => (n : Int)

def readExponent : List Char → Option (Option Int)
  | [] => some none
  | c :: rest => if c = 'e' ∨ c = 'E' then (readInteger rest).map some else none

/-- The digits after a point, and what follows them. -/
def readFraction : List Char → List Char × List Char
  | [] => ([], [])
  | c :: rest =>
    if c = '.' then (rest.takeWhile Char.isDigit, rest.dropWhile Char.isDigit) else ([], c :: rest)

def literalFrom (whole : List Char) (fraction : List Char × List Char) : Option Literal :=
  if whole = [] ∧ fraction.1 = [] then none
  else (readExponent fraction.2).map fun e => ⟨whole, fraction.1, e⟩

/-- `StrUnsignedDecimalLiteral`, without `Infinity`. -/
def readLiteral (text : List Char) : Option Literal :=
  literalFrom (text.takeWhile Char.isDigit) (readFraction (text.dropWhile Char.isDigit))

/-! ## StringToNumber -/

/-- `WhiteSpace` and `LineTerminator`. -/
def whitespace (c : Char) : Bool :=
  let n := c.toNat
  (9 ≤ n && n ≤ 13) || n = 0x20 || n = 0xA0 || n = 0x1680 || (0x2000 ≤ n && n ≤ 0x200A) ||
    n = 0x2028 || n = 0x2029 || n = 0x202F || n = 0x205F || n = 0x3000 || n = 0xFEFF

def trim (text : List Char) : List Char :=
  ((text.dropWhile whitespace).reverse.dropWhile whitespace).reverse

/-- The number that a decimal rounds to; the sign is that of its text. -/
def ofRat (negative : Bool) (q : ℚ) : JsNumber :=
  if Binary64.rounded q = 0 then
    if negative then negativeZero else finite ⟨0, Binary64.nearest_intCast (n := 0) (by decide)⟩
  else if h : |Binary64.rounded q| < 2 ^ 1024 then
    finite ⟨Binary64.rounded q, Binary64.nearest_rounded h⟩
  else infinite negative

def signed (negative : Bool) (q : ℚ) : ℚ := if negative then -q else q

def readUnsigned (negative : Bool) (text : List Char) : JsNumber :=
  if text = "Infinity".toList then infinite negative
  else
    match readLiteral text with
    | none => nan
    | some l => ofRat negative (signed negative l.value)

/-- `0x`, `0o` and `0b`. -/
def radixOf (text : List Char) : Option Nat :=
  match text.take 2 with
  | ['0', c] =>
    if c = 'x' ∨ c = 'X' then some 16 else if c = 'o' ∨ c = 'O' then some 8
    else if c = 'b' ∨ c = 'B' then some 2 else none
  | _ => none

def digitValue (c : Char) : Nat :=
  if c.isDigit then c.toNat - 48
  else if 97 ≤ c.toNat ∧ c.toNat ≤ 102 then c.toNat - 87
  else if 65 ≤ c.toNat ∧ c.toNat ≤ 70 then c.toNat - 55
  else 16

def readRadix (radix : Nat) (digits : List Char) : JsNumber :=
  if digits ≠ [] ∧ digits.all (digitValue · < radix) then
    ofRat false (digits.foldl (fun value c => radix * value + digitValue c) 0 : Nat)
  else nan

def readSigned : List Char → JsNumber
  | [] => ofRat false 0
  | c :: rest =>
    if c = '-' then readUnsigned true rest
    else if c = '+' then readUnsigned false rest
    else readUnsigned false (c :: rest)

/-- `Number(text)`. -/
def read (text : List Char) : JsNumber :=
  let literal := trim text
  match radixOf literal with
  | some radix => readRadix radix (literal.drop 2)
  | none => readSigned literal

/-! ## Number::toString -/

/-- The naturals beside a rational, the nearer one first. -/
def neighbours (q : ℚ) : List Nat :=
  let low := ⌊q⌋.toNat
  if q - low < 1 / 2 ∨ q - low = 1 / 2 ∧ low % 2 = 0 then [low, low + 1] else [low + 1, low]

/-- A decimal of `k` digits that rounds to `q`. -/
def candidate (q : ℚ) (n : Int) (k : Nat) : Option (Nat × Int) :=
  ((neighbours (|q| / 10 ^ (n - k))).find? fun (s : Nat) =>
    Binary64.nearest (signed (q < 0) (s * 10 ^ (n - k))) = some q).map fun s =>
      if s = 10 ^ k then (10 ^ (k - 1), n - k + 1) else (s, n - k)

/-- The exponent of the last digit of the exact decimal of a number. -/
def exactDigits (q : ℚ) : Nat := Nat.log 2 q.den

/-- The shortest digits with the exponent of the last one. The exact decimal of a number ends the
search. -/
def shortest (q : ℚ) : Nat × Int :=
  let n := Int.log 10 |q| + 1
  ((List.range' 1 (n + exactDigits q).toNat).findSome? (candidate q n)).getD (0, 0)

/-- How the digits of `s * 10 ^ e` are laid out. -/
def literalOf (s : Nat) (e : Int) : Literal :=
  let digits := Nat.toDigits 10 s
  let n := e + digits.length
  if 0 ≤ e ∧ n ≤ 21 then ⟨digits ++ List.replicate e.toNat '0', [], none⟩
  else if 0 < n ∧ n ≤ 21 then ⟨digits.take n.toNat, digits.drop n.toNat, none⟩
  else if -6 < n ∧ n ≤ 0 then ⟨['0'], List.replicate (-n).toNat '0' ++ digits, none⟩
  else ⟨digits.take 1, digits.drop 1, some (n - 1)⟩

/-- The digits of a safe integer are exact. -/
def finiteLiteral (q : ℚ) : Literal :=
  if q.den = 1 ∧ q.num.natAbs < 2 ^ 53 then ⟨Nat.toDigits 10 q.num.natAbs, [], none⟩
  else literalOf (shortest q).1 (shortest q).2

/-- `String(number)`. -/
def text : JsNumber → List Char
  | nan => "NaN".toList
  | infinite negative => if negative then "-Infinity".toList else "Infinity".toList
  | negativeZero => ['0']
  | finite q => (if q.1 < 0 then ['-'] else []) ++ (finiteLiteral q.1).text

/-! ## The digits of a number -/

theorem candidate_rounds {q : ℚ} {n : Int} {k s : Nat} {e : Int} (hk : 1 ≤ k)
    (h : candidate q n k = some (s, e)) :
    Binary64.nearest (signed (q < 0) (s * 10 ^ e)) = some q := by
  obtain ⟨t, hfind, ht⟩ := Option.map_eq_some_iff.mp h
  have hrounds := List.find?_some hfind
  rw [decide_eq_true_iff] at hrounds
  split at ht
  · rename_i hpow
    cases ht
    rw [← hrounds, hpow]
    have hvalue : ((10 ^ (k - 1) : Nat) : ℚ) * 10 ^ (n - k + 1) = ((10 ^ k : Nat) : ℚ) * 10 ^ (n - k) := by
      obtain ⟨k, rfl⟩ : ∃ j, k = j + 1 := ⟨k - 1, by omega⟩
      rw [Nat.add_sub_cancel, zpow_add_one₀ (by norm_num)]
      push_cast
      ring
    rw [hvalue]
  · cases ht
    exact hrounds

theorem neighbours_natCast (m : Nat) : ∃ rest, neighbours (m : ℚ) = m :: rest := by
  have hlow : ⌊(m : ℚ)⌋.toNat = m := by rw [Int.floor_natCast, Int.toNat_natCast]
  refine ⟨[m + 1], ?_⟩
  simp only [neighbours]
  rw [hlow, sub_self, if_pos (Or.inl (by norm_num))]

theorem signed_abs (q : ℚ) : signed (q < 0) |q| = q := by
  by_cases h : q < 0
  · rw [decide_eq_true h, signed, if_pos rfl, abs_of_neg h, neg_neg]
  · rw [decide_eq_false h, signed, if_neg Bool.false_ne_true, abs_of_nonneg (not_lt.mp h)]

theorem candidate_exact {q : ℚ} (hq : Binary64.nearest q = some q) {n : Int} {k m : Nat}
    (hm : |q| / 10 ^ (n - k) = m) : (candidate q n k).isSome := by
  obtain ⟨rest, hrest⟩ := neighbours_natCast m
  have hunit : (10 : ℚ) ^ (n - k) ≠ 0 := (zpow_pos (by norm_num) _).ne'
  have hvalue : (m : ℚ) * 10 ^ (n - k) = |q| := by rw [← hm, div_mul_cancel₀ _ hunit]
  rw [candidate, Option.isSome_map, hm, hrest, List.find?_cons_of_pos]
  · rfl
  · rw [hvalue, signed_abs, decide_eq_true_iff]
    exact hq

theorem exact_scaled {q : ℚ} (hq : Binary64.nearest q = some q) :
    |q| / 10 ^ (-(exactDigits q : Int)) = (q.num.natAbs * 5 ^ exactDigits q : Nat) := by
  obtain ⟨k, hk⟩ := Binary64.den_of_nearest hq
  have hdigits : exactDigits q = k := by rw [exactDigits, hk, Nat.log_pow (by decide)]
  have habs : |q| = q.num.natAbs / (2 : ℚ) ^ k := by
    conv_lhs => rw [← Rat.num_div_den q, hk]
    rw [abs_div, ← Int.cast_abs, Int.abs_eq_natAbs, Int.cast_natCast, Nat.cast_pow, Nat.cast_ofNat,
      abs_of_pos (show (0 : ℚ) < 2 ^ k from pow_pos (by norm_num) k)]
  have hten : (10 : ℚ) ^ k = 2 ^ k * 5 ^ k := by rw [← mul_pow]; norm_num
  have htwo : (2 : ℚ) ^ k ≠ 0 := pow_ne_zero _ (by norm_num)
  rw [hdigits, habs, zpow_neg, zpow_natCast, div_inv_eq_mul, hten]
  push_cast
  field_simp

theorem shortest_rounds {q : ℚ} (hq : Binary64.nearest q = some q) (hne : q ≠ 0) :
    Binary64.nearest (signed (q < 0) ((shortest q).1 * 10 ^ (shortest q).2)) = some q := by
  have habs : 0 < |q| := abs_pos.mpr hne
  have hexact := exact_scaled hq
  have hunit : (0 : ℚ) < 10 ^ (-(exactDigits q : Int)) := zpow_pos (by norm_num) _
  have hlog : -(exactDigits q : Int) ≤ Int.log 10 |q| := by
    rw [← Int.zpow_le_iff_le_log (by decide) habs, Nat.cast_ofNat]
    have hpos : 0 < q.num.natAbs * 5 ^ exactDigits q := by
      have hnum : 0 < q.num.natAbs := Int.natAbs_pos.mpr (Rat.num_ne_zero.mpr hne)
      positivity
    calc (10 : ℚ) ^ (-(exactDigits q : Int)) = 1 * 10 ^ (-(exactDigits q : Int)) := (one_mul _).symm
      _ ≤ |q| := by
        rw [← le_div_iff₀ hunit, hexact]
        exact_mod_cast hpos
  obtain ⟨k, hk⟩ : ∃ k : Nat, Int.log 10 |q| + 1 + exactDigits q = k :=
    ⟨_, (Int.toNat_of_nonneg (by omega)).symm⟩
  have hsome : ((List.range' 1 k).findSome? (candidate q (Int.log 10 |q| + 1))).isSome := by
    rw [List.findSome?_isSome_iff]
    refine ⟨k, List.mem_range'_1.mpr (by omega), candidate_exact (m := q.num.natAbs * 5 ^ exactDigits q) hq ?_⟩
    rw [show Int.log 10 |q| + 1 - k = -(exactDigits q : Int) by omega, hexact]
  obtain ⟨⟨s, e⟩, hfound⟩ := Option.isSome_iff_exists.mp hsome
  have hshortest : shortest q = (s, e) := by
    simp only [shortest]
    rw [hk, Int.toNat_natCast, hfound, Option.getD_some]
  obtain ⟨i, hi, hcandidate⟩ := List.exists_of_findSome?_eq_some hfound
  rw [hshortest]
  exact candidate_rounds (List.mem_range'_1.mp hi).1 hcandidate

/-! ## Reading a literal back -/

/-- The literals of numbers. -/
structure Literal.WellFormed (l : Literal) : Prop where
  whole_ne_nil : l.whole ≠ []
  whole : ∀ c ∈ l.whole, c.isDigit = true
  fraction : ∀ c ∈ l.fraction, c.isDigit = true

theorem toDigits_isDigit {n : Nat} {c : Char} (h : c ∈ Nat.toDigits 10 n) : c.isDigit = true :=
  Nat.isDigit_of_mem_toDigits (by decide) (by decide) h

theorem span_digits {digits rest : List Char} (hdigits : ∀ c ∈ digits, c.isDigit = true)
    (hrest : ∀ c ∈ rest.head?, c.isDigit = false) :
    (digits ++ rest).takeWhile Char.isDigit = digits ∧
      (digits ++ rest).dropWhile Char.isDigit = rest := by
  have htake : rest.takeWhile Char.isDigit = [] ∧ rest.dropWhile Char.isDigit = rest := by
    cases rest with
    | nil => exact ⟨rfl, rfl⟩
    | cons c rest =>
      have hc := hrest c rfl
      exact ⟨List.takeWhile_cons_of_neg (by simp [hc]), List.dropWhile_cons_of_neg (by simp [hc])⟩
  exact ⟨by rw [List.takeWhile_append_of_pos hdigits, htake.1, List.append_nil],
    by rw [List.dropWhile_append_of_pos hdigits, htake.2]⟩

theorem readDigits_toDigits (n : Nat) : readDigits (Nat.toDigits 10 n) = some n := by
  have hdigits : (Nat.toDigits 10 n).all Char.isDigit = true :=
    List.all_eq_true.mpr fun c hc => toDigits_isDigit hc
  rw [readDigits, if_pos ⟨Nat.toDigits_ne_nil, hdigits⟩, Nat.ofDigitChars_ten_toDigits]

theorem readExponent_text (e : Option Int) : readExponent (Literal.exponentText e) = some e := by
  cases e with
  | none => rfl
  | some e =>
    rw [Literal.exponentText, readExponent, if_pos (Or.inl rfl)]
    by_cases h : e < 0
    · have hvalue : -(e.natAbs : Int) = e := by omega
      rw [if_pos h, readInteger, if_pos rfl, readDigits_toDigits, Option.map_some, Option.map_some,
        hvalue]
    · have hvalue : (e.natAbs : Int) = e := by omega
      rw [if_neg h, readInteger, if_neg (by decide), if_pos rfl, readDigits_toDigits,
        Option.map_some, Option.map_some, hvalue]

theorem exponentText_head (e : Option Int) :
    ∀ c ∈ (Literal.exponentText e).head?, c.isDigit = false := by
  cases e with
  | none =>
    intro c hc
    cases hc
  | some e =>
    intro c hc
    cases hc
    rfl

theorem readFraction_text {l : Literal} (hl : l.WellFormed) :
    readFraction (Literal.fractionText l.fraction ++ Literal.exponentText l.exponent) =
      (l.fraction, Literal.exponentText l.exponent) := by
  cases hfraction : l.fraction with
  | nil =>
    cases l.exponent with
    | none => rfl
    | some e => rfl
  | cons c fraction =>
    obtain ⟨htake, hdrop⟩ := span_digits hl.fraction (exponentText_head l.exponent)
    rw [hfraction] at htake hdrop
    rw [Literal.fractionText, List.cons_append, readFraction, if_pos rfl, htake, hdrop]
    exact List.cons_ne_nil _ _

theorem fractionText_head {l : Literal} :
    ∀ c ∈ (Literal.fractionText l.fraction ++ Literal.exponentText l.exponent).head?,
      c.isDigit = false := by
  cases l.fraction with
  | nil => exact exponentText_head l.exponent
  | cons d fraction =>
    intro c hc
    cases hc
    rfl

theorem readLiteral_text {l : Literal} (hl : l.WellFormed) : readLiteral l.text = some l := by
  obtain ⟨htake, hdrop⟩ := span_digits hl.whole (fractionText_head (l := l))
  rw [readLiteral, Literal.text, List.append_assoc, htake, hdrop, readFraction_text hl, literalFrom,
    if_neg (fun h => hl.whole_ne_nil h.1), readExponent_text, Option.map_some]

/-! ## The layout of digits -/

theorem literalOf_wellFormed (s : Nat) (e : Int) : (literalOf s e).WellFormed := by
  have hdigits : ∀ c ∈ Nat.toDigits 10 s, c.isDigit = true := fun c => toDigits_isDigit
  have hpos : 0 < (Nat.toDigits 10 s).length := Nat.length_toDigits_pos
  have hzeros (n : Nat) : ∀ c ∈ List.replicate n '0', c.isDigit = true := by
    intro c hc
    rw [List.eq_of_mem_replicate hc]
    rfl
  have htake {n : Nat} (hn : 0 < n) : (Nat.toDigits 10 s).take n ≠ [] := by
    rw [← List.length_pos_iff, List.length_take]
    omega
  simp only [literalOf]
  split
  · exact ⟨by simp, List.forall_mem_append.mpr ⟨hdigits, hzeros _⟩, by simp⟩
  · split
    · exact ⟨htake (by omega), fun c hc => hdigits c (List.mem_of_mem_take hc),
        fun c hc => hdigits c (List.mem_of_mem_drop hc)⟩
    · split
      · exact ⟨by simp, hzeros 1, List.forall_mem_append.mpr ⟨hzeros _, hdigits⟩⟩
      · exact ⟨htake Nat.one_pos, fun c hc => hdigits c (List.mem_of_mem_take hc),
          fun c hc => hdigits c (List.mem_of_mem_drop hc)⟩

theorem ofDigits_pad (s m n : Nat) :
    Nat.ofDigitChars 10 (List.replicate m '0' ++ Nat.toDigits 10 s ++ List.replicate n '0') 0 =
      10 ^ n * s := by
  rw [Nat.ofDigitChars_append, Nat.ofDigitChars_append, Nat.ofDigitChars_replicate_zero,
    Nat.ofDigitChars_replicate_zero, Nat.mul_zero, Nat.ofDigitChars_ten_toDigits]

theorem literalOf_value (s : Nat) (e : Int) : (literalOf s e).value = s * 10 ^ e := by
  have hpos : 0 < (Nat.toDigits 10 s).length := Nat.length_toDigits_pos
  have hsplit (n : Nat) : Nat.ofDigitChars 10
      ((Nat.toDigits 10 s).take n ++ (Nat.toDigits 10 s).drop n) 0 = s := by
    rw [List.take_append_drop, Nat.ofDigitChars_ten_toDigits]
  simp only [literalOf]
  split
  · obtain ⟨n, rfl⟩ : ∃ n : Nat, e = n := ⟨e.toNat, by omega⟩
    have hdigits := ofDigits_pad s 0 n
    rw [List.replicate_zero, List.nil_append] at hdigits
    simp only [Literal.value, List.append_nil, Int.toNat_natCast, hdigits, Option.getD_none,
      List.length_nil, Nat.cast_zero, sub_zero, zpow_zero, mul_one, zpow_natCast]
    push_cast
    ring
  · split
    · simp only [Literal.value, hsplit, Option.getD_none, List.length_drop]
      congr 2
      omega
    · split
      · have hdigits := ofDigits_pad s ((-(e + (Nat.toDigits 10 s).length)).toNat + 1) 0
        rw [List.replicate_zero, List.append_nil, List.replicate_succ, pow_zero, one_mul] at hdigits
        simp only [Literal.value, List.cons_append, List.nil_append, Option.getD_none,
          List.length_append, List.length_replicate]
        rw [List.cons_append] at hdigits
        rw [hdigits]
        congr 2
        omega
      · simp only [Literal.value, hsplit, Option.getD_some, List.length_drop]
        congr 2
        omega

theorem finiteLiteral_wellFormed (q : ℚ) : (finiteLiteral q).WellFormed := by
  rw [finiteLiteral]
  split
  · exact ⟨Nat.toDigits_ne_nil, fun c hc => toDigits_isDigit hc, fun c hc => absurd hc List.not_mem_nil⟩
  · exact literalOf_wellFormed _ _

theorem finiteLiteral_rounds (q : Binary64.Finite) :
    Binary64.nearest (signed (q.1 < 0) (finiteLiteral q.1).value) = some q.1 := by
  rw [finiteLiteral]
  split
  · rename_i h
    have habs : (q.1.num.natAbs : ℚ) = |q.1| := by
      conv_rhs => rw [← Rat.num_div_den q.1, h.1, Nat.cast_one, div_one]
      rw [← Int.cast_abs, Int.abs_eq_natAbs, Int.cast_natCast]
    rw [Literal.value, List.append_nil, Nat.ofDigitChars_ten_toDigits, Option.getD_none,
      List.length_nil, Nat.cast_zero, sub_zero, zpow_zero, mul_one, habs, signed_abs]
    exact q.2
  · rename_i h
    have hne : q.1 ≠ 0 := by
      intro hzero
      rw [hzero] at h
      exact h (by decide)
    rw [literalOf_value]
    exact shortest_rounds q.2 hne

/-! ## Reading a number back -/

/-- The characters of finite numbers. -/
def numberChar (c : Char) : Bool := c.isDigit || c = '.' || c = 'e' || c = '+' || c = '-'

theorem whitespace_of_numberChar {c : Char} (h : numberChar c = true) : whitespace c = false := by
  have hcases : 43 ≤ c.toNat ∧ c.toNat ≤ 57 ∨ c.toNat = 101 := by
    simp only [numberChar, Bool.or_eq_true, decide_eq_true_iff] at h
    rcases h with (((h | rfl) | rfl) | rfl) | rfl
    · have hrange : 48 ≤ c.toNat ∧ c.toNat ≤ 57 := Char.isDigit_iff_toNat.mp h
      omega
    all_goals decide
  simp only [whitespace, Bool.or_eq_false_iff, Bool.and_eq_false_iff, decide_eq_false_iff_not]
  omega

theorem Literal.WellFormed.numberChars {l : Literal} (hl : l.WellFormed) :
    ∀ c ∈ l.text, numberChar c = true := by
  have hdigit {c : Char} (h : c.isDigit = true) : numberChar c = true := by simp [numberChar, h]
  have hfraction : ∀ c ∈ Literal.fractionText l.fraction, numberChar c = true := by
    have hdigits := hl.fraction
    generalize l.fraction = fraction at hdigits
    cases fraction with
    | nil => exact fun c hc => absurd hc List.not_mem_nil
    | cons d fraction => exact List.forall_mem_cons.mpr ⟨rfl, fun c hc => hdigit (hdigits c hc)⟩
  have hexponent : ∀ c ∈ Literal.exponentText l.exponent, numberChar c = true := by
    cases l.exponent with
    | none => exact fun c hc => absurd hc List.not_mem_nil
    | some e =>
      have hsign : numberChar (if e < 0 then '-' else '+') = true := by split <;> rfl
      exact List.forall_mem_cons.mpr ⟨rfl, List.forall_mem_cons.mpr
        ⟨hsign, fun c hc => hdigit (toDigits_isDigit hc)⟩⟩
  exact List.forall_mem_append.mpr
    ⟨List.forall_mem_append.mpr ⟨fun c hc => hdigit (hl.whole c hc), hfraction⟩, hexponent⟩

theorem text_numberChars (q : Binary64.Finite) : ∀ c ∈ text (finite q), numberChar c = true := by
  have hsign : ∀ c ∈ (if q.1 < 0 then ['-'] else []), numberChar c = true := by
    split
    · exact fun c hc => by rw [List.mem_singleton.mp hc]; rfl
    · exact fun c hc => absurd hc List.not_mem_nil
  exact List.forall_mem_append.mpr ⟨hsign, (finiteLiteral_wellFormed q.1).numberChars⟩

theorem dropWhile_eq_self {p : Char → Bool} {text : List Char} (h : ∀ c ∈ text, p c = false) :
    text.dropWhile p = text := by
  cases text with
  | nil => rfl
  | cons c text =>
    exact List.dropWhile_cons_of_neg (by rw [h c List.mem_cons_self]; exact Bool.false_ne_true)

theorem trim_eq_self {text : List Char} (h : ∀ c ∈ text, numberChar c = true) : trim text = text := by
  have hspace : ∀ c ∈ text, whitespace c = false := fun c hc => whitespace_of_numberChar (h c hc)
  rw [trim, dropWhile_eq_self hspace,
    dropWhile_eq_self (fun c hc => hspace c (List.mem_reverse.mp hc)), List.reverse_reverse]

theorem radixOf_eq_none {text : List Char} (h : ∀ c ∈ text, numberChar c = true) :
    radixOf text = none := by
  rw [radixOf]
  split
  · rename_i c htake
    have hmem : c ∈ text.take 2 := by simp [htake]
    have hc : numberChar c = true := h c (List.mem_of_mem_take hmem)
    rw [if_neg, if_neg, if_neg]
    all_goals
      rintro (rfl | rfl)
      all_goals cases hc
  · rfl

theorem ofRat_of_nearest {negative : Bool} {x : ℚ} {q : Binary64.Finite}
    (h : Binary64.nearest x = some q.1) (hsign : q.1 = 0 → negative = false) :
    ofRat negative x = finite q := by
  rw [Binary64.nearest] at h
  split at h
  · rename_i hbound
    have hq := Option.some.inj h
    rw [ofRat]
    split
    · rename_i hzero
      rw [hsign (hq ▸ hzero), if_neg Bool.false_ne_true]
      exact congrArg finite (Subtype.ext (hzero.symm.trans hq))
    · exact congrArg finite (Subtype.ext hq)
  · cases h

theorem readUnsigned_text {negative : Bool} {l : Literal} (hl : l.WellFormed) :
    readUnsigned negative l.text = ofRat negative (signed negative l.value) := by
  have hne : l.text ≠ "Infinity".toList := by
    intro h
    have hchar := hl.numberChars 'I' (h ▸ by decide)
    cases hchar
  rw [readUnsigned, if_neg hne, readLiteral_text hl]

theorem readSigned_text {negative : Bool} {l : Literal} (hl : l.WellFormed) :
    readSigned ((if negative then ['-'] else []) ++ l.text) =
      ofRat negative (signed negative l.value) := by
  cases negative with
  | true => rw [if_pos rfl, List.singleton_append, readSigned, if_pos rfl, readUnsigned_text hl]
  | false =>
    obtain ⟨c, whole, hwhole⟩ := List.exists_cons_of_ne_nil hl.whole_ne_nil
    have hdigit : c.isDigit = true := hl.whole c (hwhole ▸ List.mem_cons_self)
    obtain ⟨rest, hrest⟩ : ∃ rest, l.text = c :: rest :=
      ⟨whole ++ Literal.fractionText l.fraction ++ Literal.exponentText l.exponent, by
        rw [Literal.text, hwhole]; rfl⟩
    have hminus : c ≠ '-' := by rintro rfl; cases hdigit
    have hplus : c ≠ '+' := by rintro rfl; cases hdigit
    rw [if_neg Bool.false_ne_true, List.nil_append, hrest, readSigned, if_neg hminus, if_neg hplus,
      ← hrest, readUnsigned_text hl]

/-- `Number(String(x))` is `x`. -/
theorem read_text {x : JsNumber} (h : x ≠ negativeZero) : read (text x) = x := by
  cases x with
  | nan => rfl
  | infinite negative => cases negative <;> rfl
  | negativeZero => exact absurd rfl h
  | finite q =>
    have hchars := text_numberChars q
    have hsign : q.1 = 0 → decide (q.1 < 0) = false := by
      intro hzero
      rw [hzero]
      rfl
    have hread : readSigned (text (finite q)) = ofRat (decide (q.1 < 0))
        (signed (decide (q.1 < 0)) (finiteLiteral q.1).value) := by
      rw [← readSigned_text (finiteLiteral_wellFormed q.1), text]
      simp only [decide_eq_true_eq]
    simp only [read]
    rw [trim_eq_self hchars, radixOf_eq_none hchars, hread]
    exact ofRat_of_nearest (finiteLiteral_rounds q) hsign

/-- `-0` is no text of a finite number. -/
theorem read_minus_zero : read ['-', '0'] = negativeZero := by
  have hl : (⟨['0'], [], none⟩ : Literal).WellFormed := ⟨by simp, List.all_eq_true.mp rfl, by simp⟩
  have hsigned := @readSigned_text true _ hl
  have hvalue : signed true (⟨['0'], [], none⟩ : Literal).value = ((0 : Int) : ℚ) := by
    simp [Literal.value, signed, Nat.ofDigitChars]
  have hzero : Binary64.rounded ((0 : Int) : ℚ) = 0 := by
    rw [Binary64.rounded_intCast (by decide), Int.cast_zero]
  rw [hvalue, ofRat, if_pos hzero, if_pos rfl, if_pos rfl] at hsigned
  have hchars : ∀ c ∈ ['-', '0'], numberChar c = true := List.all_eq_true.mp rfl
  simp only [read]
  rw [trim_eq_self hchars, radixOf_eq_none hchars]
  exact hsigned

theorem text_injective {q r : Binary64.Finite} (h : text (finite q) = text (finite r)) : q = r := by
  have hq := read_text (x := finite q) (by simp)
  rw [h, read_text (by simp)] at hq
  exact (JsNumber.finite.inj hq).symm

end JsNumber
