import ActiveTs.Lib.IsoDate

/-! # Dates of JavaScript

A date is a time value, the milliseconds since 1970 within 100,000,000 days. `toISOString` writes its
parts in UTC; a year of more than four digits has a sign. Different times have different texts. -/

namespace JsDate
open FixedDecimal

/-- The valid time values. -/
abbrev Time := { t : Int // t.natAbs ≤ 8640000000000000 }

/-! ## Years -/

def dayFromYear (year : Int) : Int :=
  365 * (year - 1970) + (year - 1969) / 4 - (year - 1901) / 100 + (year - 1601) / 400

/-- The year that a day belongs to: 400 years have 146097 days. -/
def yearOfDay (day : Int) : Int :=
  let year := day * 400 / 146097 + 1970
  if day < dayFromYear year then year - 1
  else if dayFromYear (year + 1) ≤ day then year + 1
  else year

theorem yearOfDay_spec (day : Int) :
    dayFromYear (yearOfDay day) ≤ day ∧ day < dayFromYear (yearOfDay day + 1) := by
  obtain ⟨year, hyear⟩ : ∃ year, day * 400 / 146097 + 1970 = year := ⟨_, rfl⟩
  have hlow : dayFromYear (year - 1) ≤ day := by
    unfold dayFromYear
    omega
  have hhigh : day < dayFromYear (year + 1 + 1) := by
    unfold dayFromYear
    omega
  simp only [yearOfDay, hyear]
  split
  · rename_i h
    exact ⟨hlow, by rwa [Int.sub_add_cancel]⟩
  · split
    · rename_i h
      exact ⟨h, hhigh⟩
    · rename_i hge hlt
      exact ⟨Int.not_lt.mp hge, Int.not_le.mp hlt⟩

/-! ## Texts -/

/-- The days of a year before each month. -/
def monthStarts (leap : Bool) : List Int :=
  let l := if leap then 1 else 0
  [0, 31, 59 + l, 90 + l, 120 + l, 151 + l, 181 + l, 212 + l, 243 + l, 273 + l, 304 + l, 334 + l]

/-- The month of a day of the year, from 1. -/
def monthOf (leap : Bool) (dayInYear : Int) : Nat :=
  (monthStarts leap).countP (· ≤ dayInYear)

def dateOf (leap : Bool) (dayInYear : Int) : Int :=
  dayInYear - (monthStarts leap).getD (monthOf leap dayInYear - 1) 0 + 1

def yearText (year : Int) : List Char :=
  if 0 ≤ year ∧ year ≤ 9999 then digits 4 year.toNat
  else (if year < 0 then '-' else '+') :: digits 6 year.natAbs

/-- `toISOString` -/
def isoString (t : Time) : List Char :=
  let day := t.1 / 86400000
  let time := (t.1 % 86400000).toNat
  let year := yearOfDay day
  let leap := isLeapYear year.natAbs
  let dayInYear := day - dayFromYear year
  yearText year ++ ('-' :: (digits 2 (monthOf leap dayInYear) ++ ('-' ::
    (digits 2 (dateOf leap dayInYear).toNat ++ ('T' :: (digits 2 (time / 3600000) ++ (':' ::
      (digits 2 (time / 60000 % 60) ++ (':' :: (digits 2 (time / 1000 % 60) ++ ('.' ::
        (digits 3 (time % 1000) ++ ['Z']))))))))))))

/-! ## Reading the parts back -/

theorem digits_append_inj {width a b : Nat} {separator : Char} {xs ys : List Char}
    (ha : a < 10 ^ width) (hb : b < 10 ^ width)
    (h : digits width a ++ separator :: xs = digits width b ++ separator :: ys) : a = b ∧ xs = ys := by
  have hread := IsoDate.readPart_digits ha separator xs
  rw [h, IsoDate.readPart_digits hb separator ys] at hread
  obtain ⟨hab, hxy⟩ := Prod.mk.inj (Option.some.inj hread)
  exact ⟨hab.symm, hxy.symm⟩

theorem digits_isDigit {width n : Nat} {c : Char} (h : c ∈ digits width n) : c.isDigit = true := by
  induction width generalizing n with
  | zero => cases h
  | succ width ih =>
    rcases List.mem_append.mp h with h | h
    · exact ih h
    · have hdigit : ∀ k < 10, (Nat.digitChar k).isDigit = true := by decide
      rw [List.mem_singleton.mp h]
      exact hdigit _ (Nat.mod_lt n (by decide))

/-- The characters of dates. -/
theorem mem_isoString {t : Time} {c : Char} (h : c ∈ isoString t) :
    c.isDigit = true ∨ c ∈ ['-', '+', 'T', ':', '.', 'Z'] := by
  have hyear {year : Int} (h : c ∈ yearText year) : c.isDigit = true ∨ c = '-' ∨ c = '+' := by
    rw [yearText] at h
    split at h
    · exact Or.inl (digits_isDigit h)
    · rcases List.mem_cons.mp h with rfl | h
      · split <;> simp
      · exact Or.inl (digits_isDigit h)
  have hdigits {width n : Nat} (h : c ∈ digits width n) : c.isDigit = true := digits_isDigit h
  simp only [isoString, List.mem_append, List.mem_cons, List.not_mem_nil, or_false] at h ⊢
  rcases h with h | h | h | h | h | h | h | h | h | h | h | h | h | h
  · rcases hyear h with h | h | h <;> simp [h]
  all_goals first | exact Or.inl (hdigits h) | simp [h]

theorem digits_ne_sign {width n : Nat} {c : Char} {xs ys : List Char} (hc : c.isDigit = false) :
    digits (width + 1) n ++ xs ≠ c :: ys := by
  intro h
  cases hdigits : digits (width + 1) n with
  | nil =>
    have hlength := length_digits (width + 1) n
    rw [hdigits] at hlength
    cases hlength
  | cons d rest =>
    rw [hdigits, List.cons_append, List.cons.injEq] at h
    have hdigit : c.isDigit = true := digits_isDigit (h.1 ▸ hdigits ▸ List.mem_cons_self)
    rw [hc] at hdigit
    cases hdigit

theorem sign_isDigit (year : Int) : (if year < 0 then '-' else '+').isDigit = false := by
  split <;> rfl

theorem yearText_inj {a b : Int} {xs ys : List Char} (ha : a.natAbs < 10 ^ 6) (hb : b.natAbs < 10 ^ 6)
    (h : yearText a ++ '-' :: xs = yearText b ++ '-' :: ys) : a = b ∧ xs = ys := by
  rw [yearText, yearText] at h
  by_cases hfour : 0 ≤ a ∧ a ≤ 9999
  · rw [if_pos hfour] at h
    by_cases hfour' : 0 ≤ b ∧ b ≤ 9999
    · rw [if_pos hfour'] at h
      obtain ⟨hab, hrest⟩ := digits_append_inj (by omega) (by omega) h
      exact ⟨by omega, hrest⟩
    · rw [if_neg hfour'] at h
      exact absurd h (digits_ne_sign (sign_isDigit b))
  · rw [if_neg hfour] at h
    by_cases hfour' : 0 ≤ b ∧ b ≤ 9999
    · rw [if_pos hfour'] at h
      exact absurd h.symm (digits_ne_sign (sign_isDigit a))
    · rw [if_neg hfour', List.cons_append, List.cons_append, List.cons.injEq] at h
      obtain ⟨hab, hrest⟩ := digits_append_inj ha hb h.2
      have hsign : a < 0 ↔ b < 0 := by
        by_cases hneg : a < 0 <;> by_cases hneg' : b < 0 <;> simp [hneg, hneg'] at h ⊢
      exact ⟨by omega, hrest⟩

theorem day_in_year (day : Int) :
    0 ≤ day - dayFromYear (yearOfDay day) ∧ day - dayFromYear (yearOfDay day) < 366 := by
  obtain ⟨hlow, hhigh⟩ := yearOfDay_spec day
  have hyear : dayFromYear (yearOfDay day + 1) ≤ dayFromYear (yearOfDay day) + 366 := by
    unfold dayFromYear
    omega
  omega

theorem dateOf_bounds (leap : Bool) {n : Nat} (h : n < 366) :
    monthOf leap n ≤ 12 ∧ 1 ≤ dateOf leap n ∧ dateOf leap n ≤ 32 := by
  have hall : ∀ leap, ∀ n < 366, monthOf leap (n : Nat) ≤ 12 ∧ 1 ≤ dateOf leap (n : Nat) ∧
      dateOf leap (n : Nat) ≤ 32 := by decide +kernel
  exact hall leap n h

theorem year_bound (t : Time) : (yearOfDay (t.1 / 86400000)).natAbs < 10 ^ 6 := by
  obtain ⟨hlow, hhigh⟩ := yearOfDay_spec (t.1 / 86400000)
  have ht := t.2
  generalize yearOfDay (t.1 / 86400000) = year at hlow hhigh
  unfold dayFromYear at hlow hhigh
  omega

/-- The parts of a day name it. -/
theorem day_ext {d e : Int}
    (hmonth : monthOf (isLeapYear (yearOfDay d).natAbs) (d - dayFromYear (yearOfDay d)) =
      monthOf (isLeapYear (yearOfDay d).natAbs) (e - dayFromYear (yearOfDay d)))
    (hdate : dateOf (isLeapYear (yearOfDay d).natAbs) (d - dayFromYear (yearOfDay d)) =
      dateOf (isLeapYear (yearOfDay d).natAbs) (e - dayFromYear (yearOfDay d))) : d = e := by
  unfold dateOf at hdate
  rw [hmonth] at hdate
  omega

theorem isoString_injective {s t : Time} (h : isoString s = isoString t) : s = t := by
  have hs := day_in_year (s.1 / 86400000)
  have ht := day_in_year (t.1 / 86400000)
  simp only [isoString] at h
  obtain ⟨hyear, h⟩ := yearText_inj (year_bound s) (year_bound t) h
  rw [← hyear] at h ht
  obtain ⟨m, hm⟩ : ∃ m : Nat, s.1 / 86400000 - dayFromYear (yearOfDay (s.1 / 86400000)) = m :=
    ⟨_, (Int.toNat_of_nonneg hs.1).symm⟩
  obtain ⟨n, hn⟩ : ∃ n : Nat, t.1 / 86400000 - dayFromYear (yearOfDay (s.1 / 86400000)) = n :=
    ⟨_, (Int.toNat_of_nonneg ht.1).symm⟩
  have hday := @day_ext (s.1 / 86400000) (t.1 / 86400000)
  rw [hm, hn] at h hday
  generalize isLeapYear (yearOfDay (s.1 / 86400000)).natAbs = leap at h hday
  have hmbounds := dateOf_bounds leap (show m < 366 by omega)
  have hnbounds := dateOf_bounds leap (show n < 366 by omega)
  obtain ⟨hmonth, h⟩ := digits_append_inj (by omega) (by omega) h
  obtain ⟨hdate, h⟩ := digits_append_inj (by omega) (by omega) h
  obtain ⟨hhour, h⟩ := digits_append_inj (by omega) (by omega) h
  obtain ⟨hminute, h⟩ := digits_append_inj (by omega) (by omega) h
  obtain ⟨hsecond, h⟩ := digits_append_inj (by omega) (by omega) h
  obtain ⟨hmillisecond, -⟩ := digits_append_inj (by omega) (by omega) h
  have hsame := hday hmonth (by omega)
  exact Subtype.ext (by omega)

end JsDate
