import ActiveTs.Lib.Utf8

/-! # base64url

Three bytes are four letters of six bits. The end is not padded. A decoder stops at `=` and leaves out
what is no letter of either base64 alphabet. -/

namespace Base64Url

open Utf8 (Byte byte byte_val)
open Utf16 (Units)

def letter (n : Nat) : Fin 65536 :=
  if n < 26 then Fin.ofNat 65536 (65 + n)
  else if n < 52 then Fin.ofNat 65536 (71 + n)
  else if n < 62 then Fin.ofNat 65536 (n - 4)
  else if n = 62 then 45
  else 95

def encode : List Byte → Units
  | a :: b :: c :: rest =>
    letter (a.1 / 4) :: letter (a.1 % 4 * 16 + b.1 / 16) :: letter (b.1 % 16 * 4 + c.1 / 64) ::
      letter (c.1 % 64) :: encode rest
  | [a, b] => [letter (a.1 / 4), letter (a.1 % 4 * 16 + b.1 / 16), letter (b.1 % 16 * 4)]
  | [a] => [letter (a.1 / 4), letter (a.1 % 4 * 16)]
  | [] => []

/-- The bits of a letter; of a unit only the low byte counts. -/
def sextet (unit : Fin 65536) : Option Nat :=
  let n := unit.1 % 256
  if 65 ≤ n ∧ n ≤ 90 then some (n - 65)
  else if 97 ≤ n ∧ n ≤ 122 then some (n - 71)
  else if 48 ≤ n ∧ n ≤ 57 then some (n + 4)
  else if n = 43 ∨ n = 45 then some 62
  else if n = 47 ∨ n = 95 then some 63
  else none

def bytesOf : List Nat → List Byte
  | a :: b :: c :: d :: rest =>
    byte (a * 4 + b / 16) :: byte (b % 16 * 16 + c / 4) :: byte (c % 4 * 64 + d) :: bytesOf rest
  | [a, b, c] => [byte (a * 4 + b / 16), byte (b % 16 * 16 + c / 4)]
  | [a, b] => [byte (a * 4 + b / 16)]
  | [_] => []
  | [] => []

def padding : Fin 65536 := 61

def decode (text : Units) : List Byte :=
  bytesOf ((text.takeWhile (· ≠ padding)).filterMap sextet)

/-! ## Letters -/

theorem letter_cases {n : Nat} (h : n < 64) :
    sextet (letter n) = some n ∧ letter n ≠ padding := by
  revert n
  decide

/-! ## What is encoded is decoded -/

/-- The bits of the letters of an encoding. -/
def sextets : List Byte → List Nat
  | a :: b :: c :: rest =>
    a.1 / 4 :: (a.1 % 4 * 16 + b.1 / 16) :: (b.1 % 16 * 4 + c.1 / 64) :: c.1 % 64 :: sextets rest
  | [a, b] => [a.1 / 4, a.1 % 4 * 16 + b.1 / 16, b.1 % 16 * 4]
  | [a] => [a.1 / 4, a.1 % 4 * 16]
  | [] => []

theorem encode_eq (bytes : List Byte) : encode bytes = (sextets bytes).map letter := by
  fun_induction encode bytes with
  | case1 a b c rest ih => rw [sextets, ih]; rfl
  | case2 a b => rfl
  | case3 a => rfl
  | case4 => rfl

theorem sextets_lt {bytes : List Byte} {n : Nat} (h : n ∈ sextets bytes) : n < 64 := by
  fun_induction sextets bytes with
  | case1 a b c rest ih =>
    have ha := a.2
    have hb := b.2
    have hc := c.2
    simp only [List.mem_cons] at h
    rcases h with rfl | rfl | rfl | rfl | h
    · omega
    · omega
    · omega
    · omega
    · exact ih h
  | case2 a b =>
    have ha := a.2
    have hb := b.2
    simp only [List.mem_cons, List.not_mem_nil, or_false] at h
    rcases h with rfl | rfl | rfl <;> omega
  | case3 a =>
    have ha := a.2
    simp only [List.mem_cons, List.not_mem_nil, or_false] at h
    rcases h with rfl | rfl <;> omega
  | case4 => cases h

theorem byte_eq {b : Byte} {n : Nat} (h : n = b.1) : byte n = b := by
  apply Fin.ext
  rw [h]
  exact byte_val b.2

theorem bytesOf_sextets (bytes : List Byte) : bytesOf (sextets bytes) = bytes := by
  fun_induction sextets bytes with
  | case1 a b c rest ih =>
    have ha := a.2
    have hb := b.2
    have hc := c.2
    rw [bytesOf, ih, byte_eq (b := a) (by omega), byte_eq (b := b) (by omega),
      byte_eq (b := c) (by omega)]
  | case2 a b =>
    have ha := a.2
    have hb := b.2
    rw [bytesOf, byte_eq (b := a) (by omega), byte_eq (b := b) (by omega)]
  | case3 a =>
    have ha := a.2
    rw [bytesOf, byte_eq (b := a) (by omega)]
  | case4 => rfl

/-- A decoder reads letters as their bits. -/
theorem filterMap_letters {ns : List Nat} (h : ∀ n ∈ ns, n < 64) :
    ((ns.map letter).takeWhile (· ≠ padding)).filterMap sextet = ns := by
  induction ns with
  | nil => rfl
  | cons n ns ih =>
    obtain ⟨hn, hns⟩ := List.forall_mem_cons.mp h
    obtain ⟨hsextet, hpadding⟩ := letter_cases hn
    rw [List.map_cons, List.takeWhile_cons, if_pos (decide_eq_true hpadding),
      List.filterMap_cons_some hsextet, ih hns]

theorem decode_encode (bytes : List Byte) : decode (encode bytes) = bytes := by
  rw [decode, encode_eq, filterMap_letters fun n => sextets_lt, bytesOf_sextets]

theorem length_encode (bytes : List Byte) : (encode bytes).length = (4 * bytes.length + 2) / 3 := by
  fun_induction encode bytes with
  | case1 a b c rest ih =>
    simp only [List.length_cons, ih]
    omega
  | case2 a b => simp only [List.length_cons, List.length_nil]
  | case3 a => simp only [List.length_cons, List.length_nil]
  | case4 => rfl

theorem zero_not_mem_encode (bytes : List Byte) : (0 : Fin 65536) ∉ encode bytes := by
  have hletter : ∀ n < 64, letter n ≠ 0 := by decide
  rw [encode_eq, List.mem_map]
  rintro ⟨n, hn, hzero⟩
  exact hletter n (sextets_lt hn) hzero

end Base64Url
