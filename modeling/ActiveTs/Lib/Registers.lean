import Mathlib.Data.List.Basic
import Mathlib.Data.List.Induction
import Mathlib.Order.Lattice

/-! # Last-write-wins registers

A register keeps the newest of the writes that reach it and turns down what is not newer. Where no two
writes have one version, its content depends only on the set of writes that reached it; a store that keeps
a register for every key is followed key by key. -/

namespace Registers

universe u v w

variable {W : Type u} {V : Type v} [LinearOrder V]

/-- What the register holds after one more write. -/
def accept (version : W → V) (current : Option W) (write : W) : Option W :=
  match current with
  | none => some write
  | some held => if version write ≤ version held then some held else some write

/-- A write of greatest version. -/
structure Newest (version : W → V) (writes : List W) (write : W) : Prop where
  mem : write ∈ writes
  le : ∀ other ∈ writes, version other ≤ version write

variable {version : W → V}

theorem Newest.mono {writes others : List W} {write : W} (h : Newest version writes write)
    (hsame : ∀ other, other ∈ others ↔ other ∈ writes) : Newest version others write where
  mem := (hsame write).mpr h.mem
  le other hother := h.le other ((hsame other).mp hother)

theorem Newest.unique {writes : List W} {a b : W}
    (hdistinct : ∀ a ∈ writes, ∀ b ∈ writes, version a = version b → a = b)
    (ha : Newest version writes a) (hb : Newest version writes b) : a = b :=
  hdistinct a ha.mem b hb.mem (le_antisymm (hb.le a ha.mem) (ha.le b hb.mem))

theorem Newest.accept {writes : List W} {held : W} (h : Newest version writes held) (write : W) :
    ∃ newest, accept version (some held) write = some newest ∧
      Newest version (writes ++ [write]) newest := by
  by_cases hle : version write ≤ version held
  · refine ⟨held, if_pos hle, ⟨List.mem_append_left _ h.mem, fun other hother => ?_⟩⟩
    rcases List.mem_append.mp hother with hother | hother
    · exact h.le other hother
    · rw [List.mem_singleton.mp hother]
      exact hle
  · refine ⟨write, if_neg hle, ⟨List.mem_append_right _ List.mem_cons_self, fun other hother => ?_⟩⟩
    rcases List.mem_append.mp hother with hother | hother
    · exact le_trans (h.le other hother) (le_of_lt (not_le.mp hle))
    · rw [List.mem_singleton.mp hother]

/-- The content of a register after a list of writes. -/
theorem foldl_accept (writes : List W) :
    (writes = [] ∧ writes.foldl (accept version) none = none) ∨
      ∃ write, writes.foldl (accept version) none = some write ∧ Newest version writes write := by
  induction writes using List.reverseRecOn with
  | nil => exact .inl ⟨rfl, rfl⟩
  | append_singleton writes write ih =>
    apply Or.inr
    rw [List.foldl_append, List.foldl_cons, List.foldl_nil]
    rcases ih with ⟨rfl, hnone⟩ | ⟨held, hheld, hnewest⟩
    · rw [hnone]
      exact ⟨write, rfl, ⟨List.mem_cons_self, fun other hother => (List.mem_singleton.mp hother) ▸ le_rfl⟩⟩
    · rw [hheld]
      exact hnewest.accept write

theorem exists_newest {writes : List W} (h : writes ≠ []) : ∃ write, Newest version writes write := by
  rcases @foldl_accept _ _ _ version writes with ⟨hnil, -⟩ | ⟨write, -, hnewest⟩
  · exact absurd hnil h
  · exact ⟨write, hnewest⟩

theorem foldl_accept_of_newest {writes : List W} {write : W}
    (hdistinct : ∀ a ∈ writes, ∀ b ∈ writes, version a = version b → a = b)
    (h : Newest version writes write) : writes.foldl (accept version) none = some write := by
  rcases @foldl_accept _ _ _ version writes with ⟨rfl, -⟩ | ⟨other, hother, hnewest⟩
  · exact absurd h.mem List.not_mem_nil
  · rw [hother, hnewest.unique hdistinct h]

/-! ## A store of registers -/

variable {S : Type w} {K : Type*} [DecidableEq K]

/-- A store whose state at every key shows what the register of the key holds. -/
structure Keeps (version : W → V) (key : W → Option K) (step : S → W → S)
    (Shows : S → K → Option W → Prop) : Prop where
  step : ∀ {s k held}, Shows s k held → ∀ write,
    Shows (step s write) k (if key write = some k then accept version held write else held)

variable {key : W → Option K} {step : S → W → S} {Shows : S → K → Option W → Prop}

theorem Keeps.foldl_from (h : Keeps version key step Shows) (writes : List W) {s : S} {k : K}
    {held : Option W} (hs : Shows s k held) :
    Shows (writes.foldl step s) k
      ((writes.filter fun write => key write = some k).foldl (accept version) held) := by
  induction writes generalizing s held with
  | nil => exact hs
  | cons write writes ih =>
    have hstep := h.step hs write
    rw [List.foldl_cons]
    by_cases hk : key write = some k
    · rw [if_pos hk] at hstep
      rw [List.filter_cons_of_pos (by simpa using hk), List.foldl_cons]
      exact ih hstep
    · rw [if_neg hk] at hstep
      rw [List.filter_cons_of_neg (by simpa using hk)]
      exact ih hstep

/-- In whatever order, and however often, the writes arrive, the newest one for the key is shown. -/
theorem Keeps.shows_newest (h : Keeps version key step Shows) {s : S} {k : K} (hs : Shows s k none)
    {writes delivered : List W} (hsame : ∀ write, write ∈ delivered ↔ write ∈ writes)
    (hdistinct : ∀ a ∈ writes, ∀ b ∈ writes, key a = some k → key b = some k →
      version a = version b → a = b)
    {write : W} (hnewest : Newest version (writes.filter fun write => key write = some k) write) :
    Shows (delivered.foldl step s) k (some write) := by
  have hmem : ∀ other, other ∈ (delivered.filter fun write => key write = some k) ↔
      other ∈ (writes.filter fun write => key write = some k) := fun other => by
    rw [List.mem_filter, List.mem_filter, hsame]
  have hend := h.foldl_from delivered hs
  rw [foldl_accept_of_newest _ (hnewest.mono hmem)] at hend
  · exact hend
  · intro a ha b hb
    obtain ⟨ha, hka⟩ := List.mem_filter.mp ha
    obtain ⟨hb, hkb⟩ := List.mem_filter.mp hb
    exact hdistinct a ((hsame a).mp ha) b ((hsame b).mp hb) (of_decide_eq_true hka)
      (of_decide_eq_true hkb)

theorem Keeps.shows_none (h : Keeps version key step Shows) {s : S} {k : K} (hs : Shows s k none)
    {writes delivered : List W} (hsame : ∀ write, write ∈ delivered ↔ write ∈ writes)
    (hfree : ∀ write ∈ writes, key write ≠ some k) : Shows (delivered.foldl step s) k none := by
  have hend := h.foldl_from delivered hs
  have hnil : (delivered.filter fun write => key write = some k) = [] := by
    apply List.filter_eq_nil_iff.mpr
    intro write hwrite
    simpa using hfree write ((hsame write).mp hwrite)
  rwa [hnil] at hend

end Registers
