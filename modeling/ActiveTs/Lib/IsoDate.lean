import ActiveTs.Lib.Utf16

/-! # Dates in ISO format

`YYYY-MM-DDTHH:MM:SS.sssZ` for the years 0000 to 9999: reading such a text, and that texts are in the
order of the dates. -/

/-! ## Decimals of a fixed width -/

namespace FixedDecimal

def digits : Nat → Nat → List Char
  | 0, _ => []
  | width + 1, n => digits width (n / 10) ++ [Nat.digitChar (n % 10)]

def digitValue (c : Char) : Option Nat := if c.isDigit then some (c.toNat - 48) else none

def value (cs : List Char) : Option Nat :=
  cs.foldlM (fun n c => (digitValue c).map fun digit => 10 * n + digit) 0

theorem length_digits (width n : Nat) : (digits width n).length = width := by
  induction width generalizing n with
  | zero => rfl
  | succ width ih => rw [digits, List.length_append, ih, List.length_singleton]

theorem digitValue_digitChar {n : Nat} (h : n < 10) : digitValue (Nat.digitChar n) = some n := by
  have hall : ∀ n < 10, digitValue (Nat.digitChar n) = some n := by decide
  exact hall n h

theorem value_digits {width n : Nat} (h : n < 10 ^ width) : value (digits width n) = some n := by
  induction width generalizing n with
  | zero =>
    rw [Nat.lt_one_iff.mp h]
    rfl
  | succ width ih =>
    rw [Nat.pow_succ] at h
    have hrest := ih (show n / 10 < 10 ^ width by omega)
    rw [value] at hrest
    rw [digits, value, List.foldlM_append, hrest]
    simp only [Option.bind_eq_bind, Option.bind_some, List.foldlM_cons, List.foldlM_nil,
      digitValue_digitChar (Nat.mod_lt n (by decide)), Option.map_some]
    exact congrArg some (by omega)

theorem compareChar_digitChar {a b : Nat} (ha : a < 10) (hb : b < 10) :
    Utf16.compareChar (Nat.digitChar a) (Nat.digitChar b) = compare a b := by
  have hall : ∀ a < 10, ∀ b < 10,
      Utf16.compareChar (Nat.digitChar a) (Nat.digitChar b) = compare a b := by decide
  exact hall a ha b hb

theorem compare_div_mod (a b : Nat) :
    (compare (a / 10) (b / 10)).then (compare (a % 10) (b % 10)) = compare a b := by
  rcases Nat.lt_trichotomy (a / 10) (b / 10) with h | h | h
  · rw [Nat.compare_eq_lt.mpr h, Nat.compare_eq_lt.mpr (show a < b by omega), Ordering.lt_then]
  · rw [Nat.compare_eq_eq.mpr h, Ordering.eq_then]
    rcases Nat.lt_trichotomy (a % 10) (b % 10) with h' | h' | h'
    · rw [Nat.compare_eq_lt.mpr h', Nat.compare_eq_lt.mpr (show a < b by omega)]
    · rw [Nat.compare_eq_eq.mpr h', Nat.compare_eq_eq.mpr (show a = b by omega)]
    · rw [Nat.compare_eq_gt.mpr h', Nat.compare_eq_gt.mpr (show b < a by omega)]
  · rw [Nat.compare_eq_gt.mpr h, Nat.compare_eq_gt.mpr (show b < a by omega), Ordering.gt_then]

/-- The numbers decide first, then what follows them. -/
theorem compareLex_digits {width a b : Nat} (ha : a < 10 ^ width) (hb : b < 10 ^ width)
    (xs ys : List Char) :
    List.compareLex Utf16.compareChar (digits width a ++ xs) (digits width b ++ ys) =
      (compare a b).then (List.compareLex Utf16.compareChar xs ys) := by
  induction width generalizing a b xs ys with
  | zero =>
    rw [Nat.lt_one_iff.mp ha, Nat.lt_one_iff.mp hb]
    rfl
  | succ width ih =>
    rw [Nat.pow_succ] at ha hb
    rw [digits, digits, List.append_assoc, List.append_assoc,
      ih (show a / 10 < 10 ^ width by omega) (show b / 10 < 10 ^ width by omega),
      List.singleton_append, List.singleton_append, List.compareLex_cons_cons,
      compareChar_digitChar (Nat.mod_lt a (by decide)) (Nat.mod_lt b (by decide)),
      ← Ordering.then_assoc, compare_div_mod]

end FixedDecimal

/-! ## Dates -/

def isLeapYear (year : Nat) : Bool := year % 4 = 0 && (year % 100 ≠ 0 || year % 400 = 0)

def daysInMonth (year month : Nat) : Nat :=
  if month = 2 then if isLeapYear year then 29 else 28
  else if month = 4 ∨ month = 6 ∨ month = 9 ∨ month = 11 then 30
  else 31

/-- A point in time, by its parts in UTC. -/
structure IsoDate where
  year : Nat
  month : Nat
  day : Nat
  hour : Nat
  minute : Nat
  second : Nat
  millisecond : Nat
  date_valid : year < 10000 ∧ 1 ≤ month ∧ month ≤ 12 ∧ 1 ≤ day ∧ day ≤ daysInMonth year month
  time_valid : hour < 24 ∧ minute < 60 ∧ second < 60 ∧ millisecond < 1000
  deriving DecidableEq

namespace IsoDate
open FixedDecimal

def parts (d : IsoDate) : List Nat :=
  [d.year, d.month, d.day, d.hour, d.minute, d.second, d.millisecond]

/-- The order in time. -/
def compare (a b : IsoDate) : Ordering := List.compareLex Ord.compare a.parts b.parts

/-- `toISOString` -/
def text (d : IsoDate) : List Char :=
  digits 4 d.year ++ ('-' :: (digits 2 d.month ++ ('-' :: (digits 2 d.day ++ ('T' ::
    (digits 2 d.hour ++ (':' :: (digits 2 d.minute ++ (':' :: (digits 2 d.second ++ ('.' ::
      (digits 3 d.millisecond ++ ['Z']))))))))))))

def ofParts (year month day hour minute second millisecond : Nat) : Option IsoDate :=
  if h : (year < 10000 ∧ 1 ≤ month ∧ month ≤ 12 ∧ 1 ≤ day ∧ day ≤ daysInMonth year month) ∧
      hour < 24 ∧ minute < 60 ∧ second < 60 ∧ millisecond < 1000 then
    some ⟨year, month, day, hour, minute, second, millisecond, h.1, h.2⟩
  else none

/-- A number of some width, and the character behind it. -/
def readPart (width : Nat) (separator : Char) (cs : List Char) : Option (Nat × List Char) :=
  match value (cs.take width), cs.drop width with
  | some n, c :: rest => if c = separator then some (n, rest) else none
  | _, _ => none

def parse (cs : List Char) : Option IsoDate := do
  let (year, cs) ← readPart 4 '-' cs
  let (month, cs) ← readPart 2 '-' cs
  let (day, cs) ← readPart 2 'T' cs
  let (hour, cs) ← readPart 2 ':' cs
  let (minute, cs) ← readPart 2 ':' cs
  let (second, cs) ← readPart 2 '.' cs
  let (millisecond, cs) ← readPart 3 'Z' cs
  if cs = [] then ofParts year month day hour minute second millisecond else none

theorem day_lt (d : IsoDate) : d.day < 100 := by
  have h := d.date_valid
  have hdays : daysInMonth d.year d.month ≤ 31 := by
    rw [daysInMonth]
    split
    · split <;> omega
    · split <;> omega
  omega

theorem compareLex_text (a b : IsoDate) :
    List.compareLex Utf16.compareChar a.text b.text = a.compare b := by
  have ha := a.date_valid
  have hb := b.date_valid
  have ha' := a.time_valid
  have hb' := b.time_valid
  have hsep (c : Char) (xs ys : List Char) :
      List.compareLex Utf16.compareChar (c :: xs) (c :: ys) =
        List.compareLex Utf16.compareChar xs ys := List.compareLex_append_same [c] xs ys
  have hlast : List.compareLex Utf16.compareChar ['Z'] ['Z'] = .eq := hsep 'Z' [] []
  rw [text, text, compareLex_digits (by omega) (by omega), hsep,
    compareLex_digits (by omega) (by omega), hsep,
    compareLex_digits a.day_lt b.day_lt, hsep,
    compareLex_digits (by omega) (by omega), hsep,
    compareLex_digits (by omega) (by omega), hsep,
    compareLex_digits (by omega) (by omega), hsep,
    compareLex_digits (by omega) (by omega), hlast]
  simp only [compare, parts, List.compareLex_cons_cons, List.compareLex_nil_nil]

theorem readPart_digits {width n : Nat} (h : n < 10 ^ width) (separator : Char) (rest : List Char) :
    readPart width separator (digits width n ++ separator :: rest) = some (n, rest) := by
  rw [readPart, List.take_left' (length_digits width n), List.drop_left' (length_digits width n),
    value_digits h]
  exact if_pos rfl

theorem parse_text (d : IsoDate) : parse d.text = some d := by
  have hdate := d.date_valid
  have htime := d.time_valid
  have hday := d.day_lt
  simp only [parse, text, Option.bind_eq_bind, Option.bind_some,
    readPart_digits (show d.year < 10 ^ 4 by omega),
    readPart_digits (show d.month < 10 ^ 2 by omega),
    readPart_digits (show d.day < 10 ^ 2 by omega),
    readPart_digits (show d.hour < 10 ^ 2 by omega),
    readPart_digits (show d.minute < 10 ^ 2 by omega),
    readPart_digits (show d.second < 10 ^ 2 by omega),
    readPart_digits (show d.millisecond < 10 ^ 3 by omega)]
  rw [if_pos trivial, ofParts, dif_pos ⟨hdate, htime⟩]

end IsoDate
