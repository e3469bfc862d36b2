import ActiveTs.Lib.Utf8

/-! # The orders of UTF-8 and UTF-16

Bytes order texts by their characters, code units do not: they put supplementary characters between
U+D7FF and U+E000. Below U+D800 the two orders agree, also against units that are no text. -/

namespace Utf8

def compareChar (a b : Char) : Ordering := compare a.toNat b.toNat

instance : Std.OrientedCmp compareChar where
  eq_swap {a b} := Std.OrientedCmp.eq_swap (a := a.toNat) (b := b.toNat)

instance : Std.LawfulEqCmp compareChar where
  compare_self := Nat.compare_eq_eq.mpr rfl
  eq_of_compare h := Char.toNat_inj.mp (Nat.compare_eq_eq.mp h)

/-! ## Bytes -/

/-- The first bytes decide, or the rest does. -/
theorem compareLex_byte {m n : Nat} {xs ys : List Byte} (hm : m ≤ n) (hn : n < 256)
    (hrest : m = n → List.compareLex compare xs ys = .lt) :
    List.compareLex compare (byte m :: xs) (byte n :: ys) = .lt := by
  rw [List.compareLex_cons_cons]
  by_cases heq : m = n
  · have hself : compare (byte m) (byte n) = .eq := by
      rw [heq]
      exact Std.ReflCmp.compare_self
    rw [hself, Ordering.eq_then, hrest heq]
  · have hlt : compare (byte m) (byte n) = .lt := by
      apply Nat.compare_eq_lt.mpr
      rw [byte_val (by omega), byte_val hn]
      omega
    rw [hlt, Ordering.lt_then]

theorem bytes_cases (c : Char) :
    c.toNat < 0x80 ∧ bytes c = [byte c.toNat] ∨
    (0x80 ≤ c.toNat ∧ c.toNat < 0x800) ∧
      bytes c = [byte (0xC0 + c.toNat / 64), byte (0x80 + c.toNat % 64)] ∨
    (0x800 ≤ c.toNat ∧ c.toNat < 0x10000) ∧
      bytes c = [byte (0xE0 + c.toNat / 4096), byte (0x80 + c.toNat / 64 % 64),
        byte (0x80 + c.toNat % 64)] ∨
    (0x10000 ≤ c.toNat ∧ c.toNat < 0x110000) ∧
      bytes c = [byte (0xF0 + c.toNat / 262144), byte (0x80 + c.toNat / 4096 % 64),
        byte (0x80 + c.toNat / 64 % 64), byte (0x80 + c.toNat % 64)] := by
  have hrange := Utf16.toNat_range c
  rw [bytes]
  by_cases h1 : c.toNat < 0x80
  · exact .inl ⟨h1, if_pos h1⟩
  by_cases h2 : c.toNat < 0x800
  · rw [if_neg h1, if_pos h2]
    exact .inr (.inl ⟨⟨by omega, h2⟩, rfl⟩)
  by_cases h3 : c.toNat < 0x10000
  · rw [if_neg h1, if_neg h2, if_pos h3]
    exact .inr (.inr (.inl ⟨⟨by omega, h3⟩, rfl⟩))
  · rw [if_neg h1, if_neg h2, if_neg h3]
    exact .inr (.inr (.inr ⟨⟨by omega, by omega⟩, rfl⟩))

theorem bytes_order : OrderEncoding compareChar (compare : Byte → Byte → Ordering) bytes := by
  apply OrderEncoding.of_lt
  · intro c
    rcases bytes_cases c with ⟨-, h⟩ | ⟨-, h⟩ | ⟨-, h⟩ | ⟨-, h⟩ <;>
      exact h ▸ List.cons_ne_nil _ _
  · intro a b h xs ys
    have hlt : a.toNat < b.toNat := Nat.compare_eq_lt.mp h
    obtain ⟨m, hm⟩ : ∃ m, a.toNat = m := ⟨_, rfl⟩
    obtain ⟨n, hn⟩ : ∃ n, b.toNat = n := ⟨_, rfl⟩
    have ha := bytes_cases a
    have hb := bytes_cases b
    simp only [hm, hn] at hlt ha hb
    -- Longer encodings begin with larger bytes; encodings of one length are compared byte by byte.
    rcases ha with ⟨hra, ha⟩ | ⟨hra, ha⟩ | ⟨hra, ha⟩ | ⟨hra, ha⟩ <;>
      rcases hb with ⟨hrb, hb⟩ | ⟨hrb, hb⟩ | ⟨hrb, hb⟩ | ⟨hrb, hb⟩ <;>
      first | omega | rw [ha, hb]
    · exact compareLex_byte (by omega) (by omega) (by omega)
    · exact compareLex_byte (by omega) (by omega) (by omega)
    · exact compareLex_byte (by omega) (by omega) (by omega)
    · exact compareLex_byte (by omega) (by omega) (by omega)
    · apply compareLex_byte (by omega) (by omega)
      intro hfirst
      exact compareLex_byte (by omega) (by omega) (by omega)
    · exact compareLex_byte (by omega) (by omega) (by omega)
    · exact compareLex_byte (by omega) (by omega) (by omega)
    · apply compareLex_byte (by omega) (by omega)
      intro hfirst
      apply compareLex_byte (by omega) (by omega)
      intro hsecond
      exact compareLex_byte (by omega) (by omega) (by omega)
    · exact compareLex_byte (by omega) (by omega) (by omega)
    · apply compareLex_byte (by omega) (by omega)
      intro hfirst
      apply compareLex_byte (by omega) (by omega)
      intro hsecond
      apply compareLex_byte (by omega) (by omega)
      intro hthird
      exact compareLex_byte (by omega) (by omega) (by omega)

/-- Bytes are compared as the characters are. -/
theorem compareLex_encode (a b : List Char) :
    List.compareLex compare (encode a) (encode b) = List.compareLex compareChar a b :=
  bytes_order.compareLex_flatMap a b

theorem compareLex_eq_iff (a b : List Char) : List.compareLex compareChar a b = .eq ↔ a = b :=
  Std.LawfulEqCmp.compare_eq_iff_eq

/-! ## Texts against code units -/

/-- The characters before the surrogates. -/
def Low (text : List Char) : Prop := ∀ c ∈ text, c.toNat < 0xD800

theorem decode_low {unit : Fin 65536} (h : unit.1 < 0xD800) (rest : List (Fin 65536)) :
    Utf16.decode (unit :: rest) = Char.ofNat unit.1 :: Utf16.decode rest := by
  have hhigh : Utf16.isHigh unit = false := by
    simp only [Utf16.isHigh, Bool.and_eq_false_iff, decide_eq_false_iff_not]
    omega
  have hlow : Utf16.isLow unit = false := by
    simp only [Utf16.isLow, Bool.and_eq_false_iff, decide_eq_false_iff_not]
    omega
  rw [Utf16.decode_cons hhigh, Utf16.single, hhigh, hlow, Bool.or_self, if_neg Bool.false_ne_true]

theorem toNat_ofNat_low {n : Nat} (h : n < 0xD800) : (Char.ofNat n).toNat = n :=
  Utf16.toNat_ofNat (.inl h)

theorem toNat_single {unit : Fin 65536} (h : 0xD800 ≤ unit.1) : 0xD800 ≤ (Utf16.single unit).toNat := by
  have hunit := unit.2
  rw [Utf16.single]
  split
  · decide
  · next hsurrogate =>
    have hvalid : Nat.isValidChar unit.1 := by
      simp only [Utf16.isHigh, Utf16.isLow, Bool.or_eq_true, Bool.and_eq_true,
        decide_eq_true_iff] at hsurrogate
      unfold Nat.isValidChar
      omega
    rw [Utf16.toNat_ofNat hvalid]
    exact h

/-- What begins with a unit from U+D800 on begins with a character from there on. -/
theorem decode_not_low {unit : Fin 65536} (h : 0xD800 ≤ unit.1) (rest : List (Fin 65536)) :
    ∃ c text, Utf16.decode (unit :: rest) = c :: text ∧ 0xD800 ≤ c.toNat := by
  cases rest with
  | nil => exact ⟨_, _, rfl, toNat_single h⟩
  | cons low rest =>
    rw [Utf16.decode]
    split
    · next hpair =>
      refine ⟨_, _, rfl, ?_⟩
      simp only [Utf16.isHigh, Utf16.isLow, Bool.and_eq_true, decide_eq_true_iff] at hpair
      rw [Utf16.toNat_ofNat (by unfold Nat.isValidChar; omega)]
      omega
    · exact ⟨_, _, rfl, toNat_single h⟩

theorem encode_cons_low {c : Char} (h : c.toNat < 0xD800) (text : List Char) :
    Utf16.encode (c :: text) = Fin.ofNat 65536 c.toNat :: Utf16.encode text := by
  rw [Utf16.encode, List.flatMap_cons, Utf16.units_of_lt (by omega)]
  rfl

theorem compareLex_decode {text : List Char} (h : Low text) (units : List (Fin 65536)) :
    List.compareLex compareChar text (Utf16.decode units) =
      List.compareLex compare (Utf16.encode text) units := by
  induction text generalizing units with
  | nil =>
    cases units with
    | nil => rfl
    | cons unit units =>
      by_cases hunit : unit.1 < 0xD800
      · rw [decode_low hunit]
        rfl
      · obtain ⟨c, rest, hdecode, -⟩ := decode_not_low (Nat.not_lt.mp hunit) units
        rw [hdecode]
        rfl
  | cons c text ih =>
    have hc : c.toNat < 0xD800 := h c List.mem_cons_self
    have hvalue : (Fin.ofNat 65536 c.toNat).1 = c.toNat := Nat.mod_eq_of_lt (by omega)
    rw [encode_cons_low hc]
    cases units with
    | nil => rfl
    | cons unit units =>
      by_cases hunit : unit.1 < 0xD800
      · have hfirst : compareChar c (Char.ofNat unit.1) = compare (Fin.ofNat 65536 c.toNat) unit := by
          rw [compareChar, toNat_ofNat_low hunit]
          exact congrArg (compare · unit.1) hvalue.symm
        rw [decode_low hunit, List.compareLex_cons_cons, List.compareLex_cons_cons, hfirst,
          ih (fun d hd => h d (List.mem_cons_of_mem _ hd))]
      · obtain ⟨d, rest, hdecode, hd⟩ := decode_not_low (Nat.not_lt.mp hunit) units
        have hchars : compareChar c d = .lt := Nat.compare_eq_lt.mpr (by omega)
        have hunits : compare (Fin.ofNat 65536 c.toNat) unit = .lt :=
          Nat.compare_eq_lt.mpr (by omega)
        rw [hdecode, List.compareLex_cons_cons, List.compareLex_cons_cons, hchars, hunits,
          Ordering.lt_then, Ordering.lt_then]

theorem decode_prefix_iff {text : List Char} (h : Low text) (units : List (Fin 65536)) :
    Utf16.decode units <+: text ↔ units <+: Utf16.encode text := by
  induction text generalizing units with
  | nil =>
    cases units with
    | nil => simp [Utf16.decode, Utf16.encode]
    | cons unit units =>
      have hdecode : ∃ c rest, Utf16.decode (unit :: units) = c :: rest := by
        by_cases hunit : unit.1 < 0xD800
        · exact ⟨_, _, decode_low hunit units⟩
        · obtain ⟨c, rest, hdecode, -⟩ := decode_not_low (Nat.not_lt.mp hunit) units
          exact ⟨c, rest, hdecode⟩
      obtain ⟨c, rest, hdecode⟩ := hdecode
      simp [hdecode, Utf16.encode]
  | cons c text ih =>
    have hc : c.toNat < 0xD800 := h c List.mem_cons_self
    have hvalue : (Fin.ofNat 65536 c.toNat).1 = c.toNat := Nat.mod_eq_of_lt (by omega)
    rw [encode_cons_low hc]
    cases units with
    | nil => simp [Utf16.decode]
    | cons unit units =>
      rw [List.cons_prefix_cons]
      by_cases hunit : unit.1 < 0xD800
      · have hfirst : Char.ofNat unit.1 = c ↔ unit = Fin.ofNat 65536 c.toNat := by
          rw [← Char.toNat_inj, toNat_ofNat_low hunit, Fin.ext_iff, hvalue]
        rw [decode_low hunit, List.cons_prefix_cons, hfirst,
          ih (fun d hd => h d (List.mem_cons_of_mem _ hd))]
      · obtain ⟨d, rest, hdecode, hd⟩ := decode_not_low (Nat.not_lt.mp hunit) units
        rw [hdecode, List.cons_prefix_cons]
        constructor
        · rintro ⟨rfl, -⟩
          omega
        · rintro ⟨rfl, -⟩
          omega

/-- For every text that is not low, the two orders disagree about some text. -/
theorem exists_flip {text : List Char} (h : ¬ Low text) : ∃ other,
    (List.compareLex compareChar text other = .lt ∧
      List.compareLex Utf16.compareChar text other = .gt) ∨
    (List.compareLex compareChar text other = .gt ∧
      List.compareLex Utf16.compareChar text other = .lt) := by
  induction text with
  | nil => exact absurd (fun c hc => absurd hc List.not_mem_nil) h
  | cons c text ih =>
    have hrank := Utf16.rank_cases c
    by_cases hc : c.toNat < 0xD800
    · have htext : ¬ Low text := by
        intro hlow
        apply h
        intro d hd
        rcases List.mem_cons.mp hd with rfl | hd
        · exact hc
        · exact hlow d hd
      obtain ⟨other, hother⟩ := ih htext
      have hself : compareChar c c = .eq := Nat.compare_eq_eq.mpr rfl
      have hunits : Utf16.compareChar c c = .eq := Nat.compare_eq_eq.mpr rfl
      refine ⟨c :: other, ?_⟩
      simp only [List.compareLex_cons_cons, hself, hunits, Ordering.eq_then]
      exact hother
    by_cases hbmp : c.toNat < 0x10000
    · -- U+10000 is above the character, its first unit is below it.
      have hlt : compareChar c (Char.ofNat 0x10000) = .lt := Nat.compare_eq_lt.mpr hbmp
      have hgt : Utf16.compareChar c (Char.ofNat 0x10000) = .gt := by
        apply Nat.compare_eq_gt.mpr
        have hother : Utf16.rank (Char.ofNat 0x10000) = 0xD800 := rfl
        omega
      refine ⟨[Char.ofNat 0x10000], .inl ?_⟩
      rw [List.compareLex_cons_cons, List.compareLex_cons_cons, hlt, hgt]
      exact ⟨rfl, rfl⟩
    · have hgt : compareChar c (Char.ofNat 0xE000) = .gt := by
        apply Nat.compare_eq_gt.mpr
        have hother : (Char.ofNat 0xE000).toNat = 0xE000 := rfl
        omega
      have hlt : Utf16.compareChar c (Char.ofNat 0xE000) = .lt := by
        apply Nat.compare_eq_lt.mpr
        have hother : Utf16.rank (Char.ofNat 0xE000) = 0x10E000 := rfl
        omega
      refine ⟨[Char.ofNat 0xE000], .inr ?_⟩
      rw [List.compareLex_cons_cons, List.compareLex_cons_cons, hlt, hgt]
      exact ⟨rfl, rfl⟩

/-! ## Replaced surrogates -/

theorem single_units {unit : Fin 65536} (h : replacement ≠ Utf16.single unit) :
    Utf16.units (Utf16.single unit) = [unit] := by
  by_cases hsurrogate : (Utf16.isHigh unit || Utf16.isLow unit) = true
  · rw [Utf16.single, if_pos hsurrogate] at h
    exact absurd rfl h
  · rw [Bool.or_eq_true, not_or, Bool.not_eq_true, Bool.not_eq_true] at hsurrogate
    rw [Utf16.single, hsurrogate.1, hsurrogate.2, Bool.or_self, if_neg Bool.false_ne_true]
    exact (Utf16.units_single hsurrogate.1 hsurrogate.2).2

/-- Units that are read without a replacement are a text. -/
theorem encode_decode {units : List (Fin 65536)} (h : replacement ∉ Utf16.decode units) :
    Utf16.encode (Utf16.decode units) = units := by
  induction units using Utf16.decode.induct with
  | case1 => rfl
  | case2 unit =>
    have hsingle : Utf16.units (Utf16.single unit) = [unit] :=
      single_units fun heq => h (heq ▸ List.mem_cons_self)
    rw [Utf16.decode, Utf16.encode, List.flatMap_singleton, hsingle]
  | case3 high low rest hpair ih =>
    rw [Utf16.decode, if_pos hpair] at h ⊢
    rw [Utf16.encode, List.flatMap_cons, Utf16.units_pair hpair]
    exact congrArg (high :: low :: ·) (ih fun hmem => h (List.mem_cons_of_mem _ hmem))
  | case4 high low rest hpair ih =>
    rw [Utf16.decode, if_neg hpair] at h ⊢
    have hsingle : Utf16.units (Utf16.single high) = [high] :=
      single_units fun heq => h (heq ▸ List.mem_cons_self)
    rw [Utf16.encode, List.flatMap_cons, hsingle]
    exact congrArg (high :: ·) (ih fun hmem => h (List.mem_cons_of_mem _ hmem))

/-- A text without replacements is what some units are read as only if they are its units. -/
theorem decode_eq_iff {text : List Char} (h : replacement ∉ text) (units : List (Fin 65536)) :
    text = Utf16.decode units ↔ Utf16.encode text = units := by
  constructor
  · rintro rfl
    exact encode_decode h
  · rintro rfl
    exact (Utf16.decode_encode text).symm

/-- Text that looks replaced is also read of units that are no text. -/
theorem exists_replaced {text : List Char} (h : replacement ∈ text) :
    ∃ units, Utf16.decode units = text ∧ ∀ other, Utf16.encode other ≠ units := by
  obtain ⟨before, after, rfl⟩ := List.append_of_mem h
  have hdecode (rest : List (Fin 65536)) :
      Utf16.decode (Utf16.encode before ++ rest) = before ++ Utf16.decode rest := by
    clear h
    induction before with
    | nil => rfl
    | cons c before ih =>
      rw [Utf16.encode, List.flatMap_cons, List.append_assoc, Utf16.decode_units]
      exact congrArg (c :: ·) ih
  have hread : Utf16.decode (Utf16.encode before ++ Fin.ofNat 65536 0xDC00 :: Utf16.encode after) =
      before ++ replacement :: after := by
    rw [hdecode, Utf16.decode_cons rfl, Utf16.decode_encode]
    rfl
  refine ⟨_, hread, ?_⟩
  intro other heq
  have hother : other = before ++ replacement :: after := by
    rw [← Utf16.decode_encode other, heq, hread]
  rw [hother, Utf16.encode_append, List.append_cancel_left_eq, Utf16.encode, List.flatMap_cons] at heq
  exact absurd (List.cons.inj heq).1 (by decide)

theorem Low.replacement_notMem {text : List Char} (h : Low text) : replacement ∉ text := by
  intro hmem
  exact absurd (h _ hmem) (by decide)

end Utf8
