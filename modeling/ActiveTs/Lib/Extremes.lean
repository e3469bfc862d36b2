import Mathlib.Data.List.Basic
import Mathlib.Order.Compare

/-! # The least item of a list

A loop keeps an item until one comes that is less. Which of several equal items it keeps depends on
the order of the list; the place of the item in the order does not. -/

namespace Extremes

variable {α : Type u} {β : Type v}

/-- The item to keep of the one kept so far and the next one. -/
def keep (cmp : α → α → Ordering) (kept : Option α) (a : α) : Option α :=
  match kept with
  | none => some a
  | some best => if cmp a best = .lt then some a else some best

def least (cmp : α → α → Ordering) (l : List α) : Option α := l.foldl (keep cmp) none

section
variable {cmp : α → α → Ordering}

theorem foldl_keep [Std.TransCmp cmp] (best : α) (l : List α) :
    ∃ m, l.foldl (keep cmp) (some best) = some m ∧ m ∈ best :: l ∧
      ∀ a ∈ best :: l, (cmp m a).isLE = true := by
  have hself (a : α) : (cmp a a).isLE = true := by
    rw [@Std.ReflCmp.compare_self _ cmp _ a]
    rfl
  induction l generalizing best with
  | nil =>
    refine ⟨best, rfl, List.mem_cons_self, fun a ha => ?_⟩
    rw [List.mem_singleton.mp ha]
    exact hself best
  | cons next l ih =>
    rw [List.foldl_cons, keep]
    by_cases hlt : cmp next best = .lt
    · rw [if_pos hlt]
      obtain ⟨m, hm, hmem, hle⟩ := ih next
      refine ⟨m, hm, List.mem_cons_of_mem _ hmem, fun a ha => ?_⟩
      rcases List.mem_cons.mp ha with rfl | ha
      · have hnext : (cmp next a).isLE = true := by
          rw [hlt]
          rfl
        exact Std.TransCmp.isLE_trans (hle next List.mem_cons_self) hnext
      · exact hle a ha
    · rw [if_neg hlt]
      obtain ⟨m, hm, hmem, hle⟩ := ih best
      have hnext : (cmp best next).isLE = true := by
        rw [@Std.OrientedCmp.eq_swap _ cmp _ best next]
        cases hcmp : cmp next best with
        | lt => exact absurd hcmp hlt
        | eq => rfl
        | gt => rfl
      refine ⟨m, hm, ?_, fun a ha => ?_⟩
      · rcases List.mem_cons.mp hmem with rfl | hmem
        · exact List.mem_cons_self
        · exact List.mem_cons_of_mem _ (List.mem_cons_of_mem _ hmem)
      · rcases List.mem_cons.mp ha with rfl | ha
        · exact hle a List.mem_cons_self
        · rcases List.mem_cons.mp ha with rfl | ha
          · exact Std.TransCmp.isLE_trans (hle best List.mem_cons_self) hnext
          · exact hle a (List.mem_cons_of_mem _ ha)

theorem least_nil : least cmp [] = none := rfl

theorem least_eq_some [Std.TransCmp cmp] {l : List α} (h : l ≠ []) :
    ∃ m, least cmp l = some m ∧ m ∈ l ∧ ∀ a ∈ l, (cmp m a).isLE = true := by
  cases l with
  | nil => exact absurd rfl h
  | cons a l => exact foldl_keep a l

/-- The least item of a list, and of the list in some other order and written in another way that
keeps the order weakly, have the same place in the order. -/
theorem least_map_perm [Std.TransCmp cmp] {cmp' : β → β → Ordering} [Std.TransCmp cmp'] {f : α → β}
    {l : List α} {l' : List β} (hperm : l'.Perm (l.map f))
    (hmono : ∀ a ∈ l, ∀ b ∈ l, (cmp a b).isLE = true → (cmp' (f a) (f b)).isLE = true) :
    (least cmp l = none ∧ least cmp' l' = none) ∨
      ∃ m ∈ l, ∃ m' ∈ l', least cmp l = some m ∧ least cmp' l' = some m' ∧ cmp' (f m) m' = .eq := by
  by_cases hnil : l = []
  · subst hnil
    rw [List.map_nil, List.perm_nil] at hperm
    rw [hperm]
    exact Or.inl ⟨least_nil, least_nil⟩
  · have hnil' : l' ≠ [] := by
      rintro rfl
      exact hnil (List.map_eq_nil_iff.mp (List.nil_perm.mp hperm))
    obtain ⟨m, hm, hmem, hle⟩ := @least_eq_some _ cmp _ l hnil
    obtain ⟨m', hm', hmem', hle'⟩ := @least_eq_some _ cmp' _ l' hnil'
    refine Or.inr ⟨m, hmem, m', hmem', hm, hm', ?_⟩
    obtain ⟨b, hb, rfl⟩ := List.mem_map.mp (hperm.subset hmem')
    have hforth := hmono m hmem b hb (hle b hb)
    have hback := hle' (f m) (hperm.symm.subset (List.mem_map_of_mem hmem))
    rw [@Std.OrientedCmp.eq_swap _ cmp' _ (f b) (f m)] at hback
    cases hcmp : cmp' (f m) (f b) with
    | lt =>
      rw [hcmp] at hback
      cases hback
    | eq => rfl
    | gt =>
      rw [hcmp] at hforth
      cases hforth

end

end Extremes
