import ActiveTs.Lib.JsDate
import ActiveTs.Lib.Lex

/-! # Dates of four-digit years

Their texts have a date of ten characters and a time of the day. The texts are in the order of the
dates, and a text is read back by its parts. -/

namespace JsDate
open FixedDecimal

/-- UTC years 0000 to 9999. -/
def Portable (t : Time) : Prop := -62167219200000 ≤ t.1 ∧ t.1 < 253402300800000

instance (t : Time) : Decidable (Portable t) := inferInstanceAs (Decidable (_ ∧ _))

def dayOf (t : Time) : Int := t.1 / 86400000

def timeOfDay (t : Time) : Nat := (t.1 % 86400000).toNat

def dateText (t : Time) : List Char :=
  let year := yearOfDay (dayOf t)
  let leap := isLeapYear year.natAbs
  let dayInYear := dayOf t - dayFromYear year
  yearText year ++ ('-' :: (digits 2 (monthOf leap dayInYear) ++ ('-' ::
    digits 2 (dateOf leap dayInYear).toNat)))

def timeText (time : Nat) : List Char :=
  'T' :: (digits 2 (time / 3600000) ++ (':' :: (digits 2 (time / 60000 % 60) ++ (':' ::
    (digits 2 (time / 1000 % 60) ++ ('.' :: (digits 3 (time % 1000) ++ ['Z'])))))))

theorem isoString_eq (t : Time) : isoString t = dateText t ++ timeText (timeOfDay t) := by
  simp only [isoString, dateText, timeText, dayOf, timeOfDay, List.append_assoc, List.cons_append]

theorem timeOfDay_lt (t : Time) : timeOfDay t < 86400000 := by
  unfold timeOfDay
  omega

theorem time_eq (t : Time) : t.1 = dayOf t * 86400000 + timeOfDay t := by
  unfold dayOf timeOfDay
  omega

/-! ## Years and months in order -/

theorem dayFromYear_mono {a b : Int} (h : a ≤ b) : dayFromYear a ≤ dayFromYear b := by
  unfold dayFromYear
  omega

theorem yearOfDay_mono {d e : Int} (h : d ≤ e) : yearOfDay d ≤ yearOfDay e := by
  by_contra hlt
  obtain ⟨hlow, -⟩ := yearOfDay_spec d
  obtain ⟨-, hhigh⟩ := yearOfDay_spec e
  have hyears := dayFromYear_mono (show yearOfDay e + 1 ≤ yearOfDay d by omega)
  omega

theorem Portable.year {t : Time} (h : Portable t) : 0 ≤ yearOfDay (dayOf t) ∧ yearOfDay (dayOf t) ≤ 9999 := by
  have hzero : yearOfDay (-719528) = 0 := by decide
  have hlast : yearOfDay 2932896 = 9999 := by decide
  unfold Portable at h
  have hlow := yearOfDay_mono (show -719528 ≤ dayOf t by unfold dayOf; omega)
  have hhigh := yearOfDay_mono (show dayOf t ≤ 2932896 by unfold dayOf; omega)
  omega

theorem monthOf_mono (leap : Bool) {m n : Int} (h : m ≤ n) : monthOf leap m ≤ monthOf leap n := by
  refine List.countP_mono_left fun start _ hstart => ?_
  rw [decide_eq_true_eq] at hstart ⊢
  exact Int.le_trans hstart h

/-- The parts of a day of the year, small enough for their decimals. -/
theorem dayInYear_bounds (leap : Bool) (t : Time) :
    monthOf leap (dayOf t - dayFromYear (yearOfDay (dayOf t))) ≤ 12 ∧
      1 ≤ dateOf leap (dayOf t - dayFromYear (yearOfDay (dayOf t))) ∧
      dateOf leap (dayOf t - dayFromYear (yearOfDay (dayOf t))) ≤ 32 := by
  have h := day_in_year (dayOf t)
  have hbounds := dateOf_bounds leap
    (show (dayOf t - dayFromYear (yearOfDay (dayOf t))).toNat < 366 by omega)
  rwa [Int.toNat_of_nonneg h.1] at hbounds

/-! ## The order of texts -/

/-- Months and dates are in the order of the days of a year. -/
theorem compare_month_date (leap : Bool) {m n : Int} (hm : 1 ≤ dateOf leap m)
    (hn : 1 ≤ dateOf leap n) :
    (compare (monthOf leap m) (monthOf leap n)).then
        (compare (dateOf leap m).toNat (dateOf leap n).toNat) = compare m n := by
  rcases Nat.lt_trichotomy (monthOf leap m) (monthOf leap n) with h | h | h
  · have hlt : m < n := by
      by_contra hle
      have := monthOf_mono leap (Int.not_lt.mp hle)
      omega
    rw [Nat.compare_eq_lt.mpr h, Int.compare_eq_lt.mpr hlt, Ordering.lt_then]
  · rw [Nat.compare_eq_eq.mpr h, Ordering.eq_then]
    have hdates : dateOf leap m - dateOf leap n = m - n := by
      unfold dateOf
      rw [h]
      omega
    rcases Int.lt_trichotomy m n with hmn | hmn | hmn
    · rw [Int.compare_eq_lt.mpr hmn]
      exact Nat.compare_eq_lt.mpr (by omega)
    · rw [Int.compare_eq_eq.mpr hmn]
      exact Nat.compare_eq_eq.mpr (by omega)
    · rw [Int.compare_eq_gt.mpr hmn]
      exact Nat.compare_eq_gt.mpr (by omega)
  · have hlt : n < m := by
      by_contra hle
      have := monthOf_mono leap (Int.not_lt.mp hle)
      omega
    rw [Nat.compare_eq_gt.mpr h, Int.compare_eq_gt.mpr hlt, Ordering.gt_then]

theorem compareLex_separator (c : Char) (xs ys : List Char) :
    List.compareLex Utf16.compareChar (c :: xs) (c :: ys) = List.compareLex Utf16.compareChar xs ys :=
  List.compareLex_append_same [c] xs ys

/-- The days decide, then what follows the dates. -/
theorem compareLex_dateText {s t : Time} (hs : Portable s) (ht : Portable t) (xs ys : List Char) :
    List.compareLex Utf16.compareChar (dateText s ++ xs) (dateText t ++ ys) =
      (compare (dayOf s) (dayOf t)).then (List.compareLex Utf16.compareChar xs ys) := by
  have hyear := hs.year
  have hyear' := ht.year
  simp only [dateText, yearText, if_pos hyear, if_pos hyear', List.append_assoc, List.cons_append]
  rw [compareLex_digits (by omega) (by omega), compareLex_separator]
  rcases Int.lt_trichotomy (yearOfDay (dayOf s)) (yearOfDay (dayOf t)) with h | h | h
  · have hlt : dayOf s < dayOf t := by
      by_contra hle
      have := yearOfDay_mono (Int.not_lt.mp hle)
      omega
    rw [Nat.compare_eq_lt.mpr (by omega), Int.compare_eq_lt.mpr hlt, Ordering.lt_then,
      Ordering.lt_then]
  · have hbounds := dayInYear_bounds (isLeapYear (yearOfDay (dayOf s)).natAbs) s
    have hbounds' := dayInYear_bounds (isLeapYear (yearOfDay (dayOf s)).natAbs) t
    rw [Nat.compare_eq_eq.mpr (by omega), Ordering.eq_then, ← h] at *
    rw [compareLex_digits (by omega) (by omega), compareLex_separator,
      compareLex_digits (by omega) (by omega), ← Ordering.then_assoc,
      compare_month_date _ hbounds.2.1 hbounds'.2.1]
    have hdays : compare (dayOf s - dayFromYear (yearOfDay (dayOf s)))
        (dayOf t - dayFromYear (yearOfDay (dayOf s))) = compare (dayOf s) (dayOf t) := by
      rcases Int.lt_trichotomy (dayOf s) (dayOf t) with hst | hst | hst
      · rw [Int.compare_eq_lt.mpr hst]
        exact Int.compare_eq_lt.mpr (by omega)
      · rw [Int.compare_eq_eq.mpr hst]
        exact Int.compare_eq_eq.mpr (by omega)
      · rw [Int.compare_eq_gt.mpr hst]
        exact Int.compare_eq_gt.mpr (by omega)
    rw [hdays]
  · have hlt : dayOf t < dayOf s := by
      by_contra hle
      have := yearOfDay_mono (Int.not_lt.mp hle)
      omega
    rw [Nat.compare_eq_gt.mpr (by omega), Int.compare_eq_gt.mpr hlt, Ordering.gt_then,
      Ordering.gt_then]

/-- A number is compared by what it has of a unit and what is left. -/
theorem compare_div_mod (n a b : Nat) :
    (compare (a / n) (b / n)).then (compare (a % n) (b % n)) = compare a b := by
  have ha := Nat.div_add_mod a n
  have hb := Nat.div_add_mod b n
  rcases Nat.lt_trichotomy (a / n) (b / n) with h | h | h
  · rw [Nat.compare_eq_lt.mpr h, Ordering.lt_then]
    refine (Nat.compare_eq_lt.mpr ?_).symm
    by_contra hle
    have := @Nat.div_le_div_right _ _ n (Nat.not_lt.mp hle)
    omega
  · rw [Nat.compare_eq_eq.mpr h, Ordering.eq_then]
    rw [h] at ha
    rcases Nat.lt_trichotomy (a % n) (b % n) with h' | h' | h'
    · rw [Nat.compare_eq_lt.mpr h', Nat.compare_eq_lt.mpr (by omega)]
    · rw [Nat.compare_eq_eq.mpr h', Nat.compare_eq_eq.mpr (by omega)]
    · rw [Nat.compare_eq_gt.mpr h', Nat.compare_eq_gt.mpr (by omega)]
  · rw [Nat.compare_eq_gt.mpr h, Ordering.gt_then]
    refine (Nat.compare_eq_gt.mpr ?_).symm
    by_contra hle
    have := @Nat.div_le_div_right _ _ n (Nat.not_lt.mp hle)
    omega

theorem compareLex_timeText {a b : Nat} (ha : a < 86400000) (hb : b < 86400000) :
    List.compareLex Utf16.compareChar (timeText a) (timeText b) = compare a b := by
  have hseconds (n : Nat) : n / 1000 / 60 = n / 60000 := Nat.div_div_eq_div_mul n 1000 60
  have hminutes (n : Nat) : n / 60000 / 60 = n / 3600000 := Nat.div_div_eq_div_mul n 60000 60
  have hlast : List.compareLex Utf16.compareChar ['Z'] ['Z'] = .eq := compareLex_separator 'Z' [] []
  rw [timeText, timeText, compareLex_separator, compareLex_digits (by omega) (by omega),
    compareLex_separator, compareLex_digits (by omega) (by omega), compareLex_separator,
    compareLex_digits (by omega) (by omega), compareLex_separator,
    compareLex_digits (by omega) (by omega), hlast, Ordering.then_eq, ← hminutes, ← hminutes,
    ← Ordering.then_assoc, compare_div_mod 60, ← hseconds, ← hseconds, ← Ordering.then_assoc,
    compare_div_mod 60, compare_div_mod 1000]

/-! ## Reading texts -/

/-- The time of the parts of a canonical text. -/
def ofParts (year month date hour minute second millisecond : Nat) : Int :=
  let day := dayFromYear year + (monthStarts (isLeapYear year)).getD (month - 1) 0 + date - 1
  day * 86400000 + hour * 3600000 + minute * 60000 + second * 1000 + millisecond

def readParts (cs : List Char) : Option Int := do
  let (year, cs) ← IsoDate.readPart 4 '-' cs
  let (month, cs) ← IsoDate.readPart 2 '-' cs
  let (date, cs) ← IsoDate.readPart 2 'T' cs
  let (hour, cs) ← IsoDate.readPart 2 ':' cs
  let (minute, cs) ← IsoDate.readPart 2 ':' cs
  let (second, cs) ← IsoDate.readPart 2 '.' cs
  let (millisecond, _) ← IsoDate.readPart 3 'Z' cs
  some (ofParts year month date hour minute second millisecond)

/-- The date that has this canonical text. -/
def readCanonical (cs : List Char) : Option Time :=
  (readParts cs).bind fun time =>
    if h : time.natAbs ≤ 8640000000000000 then
      if isoString ⟨time, h⟩ = cs then some ⟨time, h⟩ else none
    else none

theorem readParts_isoString {t : Time} (h : Portable t) : readParts (isoString t) = some t.1 := by
  have hyear := h.year
  have hbounds := dayInYear_bounds (isLeapYear (yearOfDay (dayOf t)).natAbs) t
  have htime := timeOfDay_lt t
  rw [isoString_eq]
  simp only [dateText, timeText, yearText, if_pos hyear, List.append_assoc, List.cons_append,
    readParts, Option.bind_eq_bind, Option.bind_some,
    IsoDate.readPart_digits (show (yearOfDay (dayOf t)).toNat < 10 ^ 4 by omega)]
  rw [IsoDate.readPart_digits (by omega), Option.bind_some, IsoDate.readPart_digits (by omega),
    Option.bind_some, IsoDate.readPart_digits (by omega), Option.bind_some,
    IsoDate.readPart_digits (by omega), Option.bind_some, IsoDate.readPart_digits (by omega),
    Option.bind_some, IsoDate.readPart_digits (by omega), Option.bind_some]
  have hnat : ((yearOfDay (dayOf t)).toNat : Int) = yearOfDay (dayOf t) := by omega
  have habs : (yearOfDay (dayOf t)).toNat = (yearOfDay (dayOf t)).natAbs := by omega
  refine congrArg some ?_
  unfold ofParts
  rw [hnat, habs, Int.toNat_of_nonneg (by omega)]
  unfold dateOf
  have ht := time_eq t
  dsimp only
  omega

theorem readCanonical_isoString {t : Time} (h : Portable t) : readCanonical (isoString t) = some t := by
  rw [readCanonical, readParts_isoString h, Option.bind_some, dif_pos t.2, if_pos rfl]

/-- The start of the day of a date. -/
theorem exists_midnight {t : Time} (h : Portable t) :
    ∃ s, Portable s ∧ isoString s = dateText t ++ timeText 0 ∧ dayOf s = dayOf t ∧ timeOfDay s = 0 := by
  unfold Portable at h
  have hrange : (dayOf t * 86400000).natAbs ≤ 8640000000000000 := by
    unfold dayOf
    omega
  have hday : dayOf ⟨dayOf t * 86400000, hrange⟩ = dayOf t := by
    change dayOf t * 86400000 / 86400000 = dayOf t
    omega
  have htime : timeOfDay ⟨dayOf t * 86400000, hrange⟩ = 0 := by
    change (dayOf t * 86400000 % 86400000).toNat = 0
    omega
  refine ⟨⟨dayOf t * 86400000, hrange⟩, ?_, ?_, hday, htime⟩
  · change -62167219200000 ≤ dayOf t * 86400000 ∧ dayOf t * 86400000 < 253402300800000
    unfold dayOf
    omega
  · rw [isoString_eq, htime, dateText, hday]
    rfl

theorem length_dateText {t : Time} (h : Portable t) : (dateText t).length = 10 := by
  simp [dateText, yearText, if_pos h.year, length_digits]

end JsDate
