import ActiveTs.Lib.Lex
import Mathlib.Algebra.GroupWithZero.Nat

/-! # UTF-16

Texts and their code units. The units of a supplementary character are surrogates, so code units
order supplementary characters between U+D7FF and U+E000. -/

namespace Utf16

instance (priority := 2000) neZero : NeZero 65536 := ⟨by decide⟩

instance (priority := 2000) lawfulBEq : LawfulBEq (Fin 65536) := inferInstance

/-- The code units of a character. -/
def units (c : Char) : List (Fin 65536) :=
  if c.toNat < 0x10000 then [Fin.ofNat 65536 c.toNat]
  else [Fin.ofNat 65536 (0xD800 + (c.toNat - 0x10000) / 0x400),
    Fin.ofNat 65536 (0xDC00 + (c.toNat - 0x10000) % 0x400)]

/-- The strings of JavaScript. -/
abbrev Units := List (Fin 65536)

def encode (text : List Char) : List (Fin 65536) := text.flatMap units

def ofString (s : String) : Units := encode s.toList

def isHigh (unit : Fin 65536) : Bool := 0xD800 ≤ unit.1 && unit.1 < 0xDC00

def isLow (unit : Fin 65536) : Bool := 0xDC00 ≤ unit.1 && unit.1 < 0xE000

/-- A surrogate that stands alone becomes U+FFFD. -/
def single (unit : Fin 65536) : Char :=
  if isHigh unit || isLow unit then Char.ofNat 0xFFFD else Char.ofNat unit.1

def decode : List (Fin 65536) → List Char
  | [] => []
  | [unit] => [single unit]
  | high :: low :: rest =>
    if isHigh high && isLow low then
      Char.ofNat (0x10000 + (high.1 - 0xD800) * 0x400 + (low.1 - 0xDC00)) :: decode rest
    else single high :: decode (low :: rest)

/-! ## Characters -/

theorem toNat_range (c : Char) : c.toNat < 0xD800 ∨ 0xE000 ≤ c.toNat ∧ c.toNat < 0x110000 := by
  rcases c.valid with h | h
  · exact Or.inl h
  · exact Or.inr ⟨by have := h.1; simp only [Char.toNat] at *; omega, h.2⟩

theorem ofNat_toNat (c : Char) {n : Nat} (h : n = c.toNat) : Char.ofNat n = c := by
  rw [h, Char.ofNat_toNat]

theorem units_of_lt {c : Char} (h : c.toNat < 0x10000) : units c = [Fin.ofNat 65536 c.toNat] :=
  if_pos h

theorem units_of_ge {c : Char} (h : 0x10000 ≤ c.toNat) :
    units c = [Fin.ofNat 65536 (0xD800 + (c.toNat - 0x10000) / 0x400),
      Fin.ofNat 65536 (0xDC00 + (c.toNat - 0x10000) % 0x400)] :=
  if_neg (Nat.not_lt.mpr h)

theorem toNat_ofNat {n : Nat} (h : n.isValidChar) : (Char.ofNat n).toNat = n := by
  rw [Char.ofNat, dif_pos h]
  rfl

/-- A unit that is no surrogate is a character. -/
theorem units_single {unit : Fin 65536} (hhigh : isHigh unit = false) (hlow : isLow unit = false) :
    (Char.ofNat unit.1).toNat = unit.1 ∧ units (Char.ofNat unit.1) = [unit] := by
  have hunit := unit.2
  have hvalid : Nat.isValidChar unit.1 := by
    simp only [isHigh, isLow, Bool.and_eq_false_iff, decide_eq_false_iff_not] at hhigh hlow
    unfold Nat.isValidChar
    omega
  have hnat : (Char.ofNat unit.1).toNat = unit.1 := toNat_ofNat hvalid
  refine ⟨hnat, ?_⟩
  rw [units_of_lt (by rw [hnat]; exact unit.2), hnat, Fin.ofNat_val_eq_self]

/-- A pair of surrogates is a character. -/
theorem units_pair {high low : Fin 65536} (h : (isHigh high && isLow low) = true) :
    units (Char.ofNat (0x10000 + (high.1 - 0xD800) * 0x400 + (low.1 - 0xDC00))) = [high, low] := by
  simp only [isHigh, isLow, Bool.and_eq_true, decide_eq_true_iff] at h
  obtain ⟨n, hn⟩ : ∃ n, 0x10000 + (high.1 - 0xD800) * 0x400 + (low.1 - 0xDC00) = n := ⟨_, rfl⟩
  have hvalid : Nat.isValidChar n := by
    unfold Nat.isValidChar
    omega
  have hnat : (Char.ofNat n).toNat = n := toNat_ofNat hvalid
  have hhigh : 0xD800 + (n - 0x10000) / 0x400 = high.1 := by omega
  have hlow : 0xDC00 + (n - 0x10000) % 0x400 = low.1 := by omega
  rw [hn, units_of_ge (by omega), hnat, hhigh, hlow, Fin.ofNat_val_eq_self, Fin.ofNat_val_eq_self]

/-- A unit below the surrogates is a character of its own. -/
theorem toNat_of_mem_units {c : Char} {unit : Fin 65536} (h : unit ∈ units c)
    (hunit : unit.1 < 0xD800) : c.toNat = unit.1 := by
  have hrange := toNat_range c
  by_cases hc : c.toNat < 0x10000
  · rw [units_of_lt hc, List.mem_singleton] at h
    rw [h]
    exact (Nat.mod_eq_of_lt hc).symm
  · have hhigh : (Fin.ofNat 65536 (0xD800 + (c.toNat - 0x10000) / 0x400)).1 =
        0xD800 + (c.toNat - 0x10000) / 0x400 := Nat.mod_eq_of_lt (by omega)
    have hlow : (Fin.ofNat 65536 (0xDC00 + (c.toNat - 0x10000) % 0x400)).1 =
        0xDC00 + (c.toNat - 0x10000) % 0x400 := Nat.mod_eq_of_lt (by omega)
    rw [units_of_ge (Nat.not_lt.mp hc), List.mem_cons, List.mem_singleton] at h
    rcases h with h | h
    · have := congrArg Fin.val h
      omega
    · have := congrArg Fin.val h
      omega

theorem char_of_mem_encode {text : List Char} {unit : Fin 65536} (h : unit ∈ encode text)
    (hunit : unit.1 < 0xD800) : Char.ofNat unit.1 ∈ text := by
  obtain ⟨c, hc, hmem⟩ := List.mem_flatMap.mp h
  rwa [ofNat_toNat c (toNat_of_mem_units hmem hunit).symm]

/-! ## Decoding -/

theorem decode_cons {unit : Fin 65536} (h : isHigh unit = false) (rest : List (Fin 65536)) :
    decode (unit :: rest) = single unit :: decode rest := by
  cases rest with
  | nil => rfl
  | cons low rest => rw [decode, h, Bool.false_and, if_neg Bool.false_ne_true]

theorem decode_units (c : Char) (rest : List (Fin 65536)) :
    decode (units c ++ rest) = c :: decode rest := by
  have hrange := toNat_range c
  by_cases h : c.toNat < 0x10000
  · have hvalue : (Fin.ofNat 65536 c.toNat).1 = c.toNat := Nat.mod_eq_of_lt h
    have hhigh : isHigh (Fin.ofNat 65536 c.toNat) = false := by
      simp only [isHigh, hvalue, Bool.and_eq_false_iff, decide_eq_false_iff_not]
      omega
    have hlow : isLow (Fin.ofNat 65536 c.toNat) = false := by
      simp only [isLow, hvalue, Bool.and_eq_false_iff, decide_eq_false_iff_not]
      omega
    rw [units_of_lt h, List.singleton_append, decode_cons hhigh, single, hhigh, hlow, Bool.or_self,
      if_neg Bool.false_ne_true, hvalue, Char.ofNat_toNat]
  · rw [units_of_ge (Nat.not_lt.mp h)]
    have hhigh : (Fin.ofNat 65536 (0xD800 + (c.toNat - 0x10000) / 0x400)).1 =
        0xD800 + (c.toNat - 0x10000) / 0x400 := Nat.mod_eq_of_lt (by omega)
    have hlow : (Fin.ofNat 65536 (0xDC00 + (c.toNat - 0x10000) % 0x400)).1 =
        0xDC00 + (c.toNat - 0x10000) % 0x400 := Nat.mod_eq_of_lt (by omega)
    have hpair : (isHigh (Fin.ofNat 65536 (0xD800 + (c.toNat - 0x10000) / 0x400)) &&
        isLow (Fin.ofNat 65536 (0xDC00 + (c.toNat - 0x10000) % 0x400))) = true := by
      simp only [isHigh, isLow, hhigh, hlow, Bool.and_eq_true, decide_eq_true_eq]
      omega
    rw [List.cons_append, List.cons_append, List.nil_append, decode, if_pos hpair, hhigh, hlow]
    rw [ofNat_toNat c (by omega)]

theorem encode_append (a b : List Char) : encode (a ++ b) = encode a ++ encode b :=
  List.flatMap_append

theorem decode_encode (text : List Char) : decode (encode text) = text := by
  induction text with
  | nil => rfl
  | cons c text ih =>
    rw [encode, List.flatMap_cons, decode_units]
    exact congrArg (c :: ·) ih

theorem encode_injective {a b : List Char} (h : encode a = encode b) : a = b := by
  rw [← decode_encode a, h, decode_encode]

/-! ## Decimals -/

/-- `String(n)` -/
def decimal (n : Nat) : Units := encode (Nat.toDigits 10 n)

theorem decimal_inj {m n : Nat} (h : decimal m = decimal n) : m = n := by
  have hvalue := congrArg (Nat.ofDigitChars 10 · 0) (encode_injective h)
  simpa using hvalue

theorem decimal_digits {n : Nat} {unit : Fin 65536} (h : unit ∈ decimal n) :
    48 ≤ unit.1 ∧ unit.1 ≤ 57 := by
  obtain ⟨c, hc, hmem⟩ := List.mem_flatMap.mp h
  have hrange : 48 ≤ c.toNat ∧ c.toNat ≤ 57 :=
    Char.isDigit_iff_toNat.mp (Nat.isDigit_of_mem_toDigits (by decide) (by decide) hc)
  rw [units_of_lt (by omega), List.mem_singleton] at hmem
  have hvalue : unit.1 = c.toNat := by
    rw [hmem]
    exact Nat.mod_eq_of_lt (by omega)
  omega

theorem decimal_cons (n : Nat) : ∃ unit rest, decimal n = unit :: rest := by
  cases hdecimal : decimal n with
  | nil =>
    have hempty : Nat.toDigits 10 n = [] := encode_injective (hdecimal.trans (show [] = encode [] from rfl))
    exact absurd hempty Nat.toDigits_ne_nil
  | cons unit rest => exact ⟨unit, rest, rfl⟩

/-! ## Order -/

/-- The place of a character in the order of the code units. -/
def rank (c : Char) : Nat :=
  if c.toNat < 0xD800 then c.toNat
  else if c.toNat < 0x10000 then c.toNat + 0x100000
  else c.toNat - 0x10000 + 0xD800

theorem rank_cases (c : Char) :
    c.toNat < 0xD800 ∧ rank c = c.toNat ∨
      (0xE000 ≤ c.toNat ∧ c.toNat < 0x10000) ∧ rank c = c.toNat + 0x100000 ∨
      (0x10000 ≤ c.toNat ∧ c.toNat < 0x110000) ∧ rank c = c.toNat - 0x10000 + 0xD800 := by
  have hrange := toNat_range c
  rw [rank]
  split
  · omega
  · split <;> omega

theorem rank_injective {a b : Char} (h : rank a = rank b) : a = b := by
  have ha := rank_cases a
  have hb := rank_cases b
  apply Char.toNat_inj.mp
  omega

def compareChar (a b : Char) : Ordering := compare (rank a) (rank b)

instance : Std.OrientedCmp compareChar where
  eq_swap {a b} := Std.OrientedCmp.eq_swap (a := rank a) (b := rank b)

instance : Std.LawfulEqCmp compareChar where
  compare_self := Nat.compare_eq_eq.mpr rfl
  eq_of_compare h := rank_injective (Nat.compare_eq_eq.mp h)

theorem units_order : OrderEncoding compareChar (compare : Fin 65536 → Fin 65536 → Ordering) units := by
  apply OrderEncoding.of_lt
  · intro c
    rw [units]
    split <;> exact List.cons_ne_nil _ _
  · intro a b h xs ys
    have hranks : rank a < rank b := Nat.compare_eq_lt.mp h
    have ha := rank_cases a
    have hb := rank_cases b
    have hfirst {x y : Fin 65536} (hxy : x.1 < y.1) (xs ys : List (Fin 65536)) :
        List.compareLex compare (x :: xs) (y :: ys) = .lt := by
      have hcompare : compare x y = .lt := Nat.compare_eq_lt.mpr hxy
      rw [List.compareLex_cons_cons, hcompare, Ordering.lt_then]
    have hvalue {n : Nat} (hn : n < 65536) : (Fin.ofNat 65536 n).1 = n := Nat.mod_eq_of_lt hn
    by_cases hsmallA : a.toNat < 0x10000
    · rw [units_of_lt hsmallA]
      by_cases hsmallB : b.toNat < 0x10000
      · rw [units_of_lt hsmallB]
        apply hfirst
        rw [hvalue hsmallA, hvalue hsmallB]
        omega
      · rw [units_of_ge (Nat.not_lt.mp hsmallB)]
        apply hfirst
        rw [hvalue hsmallA, hvalue (by omega)]
        omega
    · rw [units_of_ge (Nat.not_lt.mp hsmallA)]
      by_cases hsmallB : b.toNat < 0x10000
      · rw [units_of_lt hsmallB]
        apply hfirst
        rw [hvalue (by omega), hvalue hsmallB]
        omega
      · have hless : a.toNat < b.toNat := by omega
        rw [units_of_ge (Nat.not_lt.mp hsmallB)]
        by_cases hhigh : (a.toNat - 0x10000) / 0x400 = (b.toNat - 0x10000) / 0x400
        · simp only [hhigh]
          refine (List.compareLex_append_same [_] (_ :: xs) (_ :: ys)).trans ?_
          apply hfirst
          rw [hvalue (by omega), hvalue (by omega)]
          omega
        · apply hfirst
          rw [hvalue (by omega), hvalue (by omega)]
          omega

theorem compareLex_encode (a b : List Char) :
    List.compareLex compare (encode a) (encode b) = List.compareLex compareChar a b :=
  units_order.compareLex_flatMap a b

theorem units_prefix_iff (a b : Char) (xs ys : List (Fin 65536)) :
    units a ++ xs <+: units b ++ ys ↔ a = b ∧ xs <+: ys := by
  constructor
  · rintro ⟨rest, h⟩
    have hdecode := congrArg decode h
    rw [List.append_assoc, decode_units, decode_units, List.cons.injEq] at hdecode
    obtain ⟨rfl, -⟩ := hdecode
    rw [List.append_assoc] at h
    exact ⟨rfl, rest, List.append_cancel_left h⟩
  · rintro ⟨rfl, h⟩
    exact (List.prefix_append_right_inj _).mpr h

theorem encode_prefix_iff (a b : List Char) : encode a <+: encode b ↔ a <+: b := by
  induction a generalizing b with
  | nil => simp [encode]
  | cons c a ih =>
    cases b with
    | nil =>
      constructor
      · intro h
        have hnil : units c = [] := (List.append_eq_nil_iff.mp (List.prefix_nil.mp h)).1
        exact absurd hnil (units_order.nonempty c)
      · intro h
        exact absurd (List.prefix_nil.mp h) (List.cons_ne_nil _ _)
    | cons d b =>
      have hrest := ih b
      rw [encode, encode] at hrest ⊢
      rw [List.flatMap_cons, List.flatMap_cons, units_prefix_iff, hrest, List.cons_prefix_cons]

end Utf16
