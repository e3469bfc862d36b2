import Mathlib.Data.List.Basic
import Mathlib.Data.List.Nodup

/-! # Keyset pages

A listing is sorted by a key that is different for every row. A cursor is the key of the last row of
a page; the next page has the rows with larger keys. -/

namespace Keyset

variable {α : Type u} {κ : Type v}

/-- A page of a listing. -/
structure Page (α : Type u) (κ : Type v) where
  list : List α
  cursor : Option κ
  more : Bool

section
variable (cmp : κ → κ → Ordering) (key : α → κ)

def listing (rows : List α) : List α := rows.mergeSort fun a b => (cmp (key a) (key b)).isLE

def afterCursor (cursor : Option κ) (list : List α) : List α :=
  match cursor with
  | none => list
  | some cursor => list.filter fun row => cmp (key row) cursor = .gt

/-- The first rows of a list, with a cursor when there are more. -/
def pageOf (limit : Option Nat) (list : List α) : Page α κ :=
  match limit with
  | none => ⟨list, none, false⟩
  | some limit =>
    let more : Bool := limit < list.length
    ⟨list.take limit, if more then (list.take limit).getLast?.map key else none, more⟩

/-- The page of a query. -/
def page (limit : Option Nat) (cursor : Option κ) (rows : List α) : Page α κ :=
  pageOf key limit (afterCursor cmp key cursor (listing cmp key rows))

end

variable {cmp : κ → κ → Ordering} {key : α → κ}

theorem afterCursor_some (cursor : κ) (list : List α) :
    afterCursor cmp key (some cursor) list =
      list.filter fun row => decide (cmp (key row) cursor = .gt) := rfl

theorem listing_perm (rows : List α) : (listing cmp key rows).Perm rows :=
  List.mergeSort_perm rows _

/-- Rewriting rows under their keys does not move them. -/
theorem listing_map {f : α → α} (rows : List α) (hf : ∀ row ∈ rows, key (f row) = key row) :
    listing cmp key (rows.map f) = (listing cmp key rows).map f := by
  symm
  apply List.map_mergeSort
  intro a ha b hb
  rw [hf a ha, hf b hb]

theorem map_key_afterCursor {f : α → α} {list : List α} (hf : ∀ row ∈ list, key (f row) = key row)
    (cursor : Option κ) :
    afterCursor cmp key cursor (list.map f) = (afterCursor cmp key cursor list).map f := by
  cases cursor with
  | none => rfl
  | some cursor =>
    rw [afterCursor_some, afterCursor_some, List.filter_map]
    congr 1
    refine List.filter_congr fun row hrow => ?_
    rw [Function.comp, hf row hrow]

section
variable [Std.TransCmp cmp] [Std.LawfulEqCmp cmp]

/-- The keys of a listing increase. -/
theorem listing_increasing {rows : List α} (hnodup : (rows.map key).Nodup) :
    (listing cmp key rows).Pairwise fun a b => cmp (key a) (key b) = .lt := by
  have hsorted : (listing cmp key rows).Pairwise fun a b => (cmp (key a) (key b)).isLE = true := by
    apply List.pairwise_mergeSort
    · intro a b c
      exact Std.TransCmp.isLE_trans
    · intro a b
      rw [Bool.or_eq_true, @Std.OrientedCmp.eq_swap _ cmp _ (key b) (key a)]
      cases cmp (key a) (key b) <;> simp
  have hdistinct : (listing cmp key rows).Pairwise fun a b => key a ≠ key b := by
    rw [← List.pairwise_map]
    exact ((listing_perm rows).map key).nodup_iff.mpr hnodup
  refine (hsorted.and hdistinct).imp fun {a b} h => ?_
  cases hcmp : cmp (key a) (key b) with
  | lt => rfl
  | eq => exact absurd (Std.LawfulEqCmp.eq_of_compare hcmp) h.2
  | gt =>
    rw [hcmp] at h
    cases h.1

end

section
variable [Std.OrientedCmp cmp]

/-- The rows after the cursor of a page are those that the page and the pages before it left. -/
theorem afterCursor_append {done rest : List α} {last : α}
    (h : (done ++ last :: rest).Pairwise fun a b => cmp (key a) (key b) = .lt) :
    afterCursor cmp key (some (key last)) (done ++ last :: rest) = rest := by
  obtain ⟨-, hrest, hdone⟩ := List.pairwise_append.mp h
  obtain ⟨hlast, -⟩ := List.pairwise_cons.mp hrest
  have hbefore : done.filter (fun row => cmp (key row) (key last) = .gt) = [] := by
    rw [List.filter_eq_nil_iff]
    intro row hrow hgt
    rw [hdone row hrow last List.mem_cons_self] at hgt
    exact absurd hgt (by decide)
  have hself : ¬ (decide (cmp (key last) (key last) = .gt)) = true := by
    rw [@Std.ReflCmp.compare_self _ cmp _ (key last)]
    decide
  have hafter : rest.filter (fun row => cmp (key row) (key last) = .gt) = rest := by
    rw [List.filter_eq_self]
    intro row hrow
    rw [@Std.OrientedCmp.eq_swap _ cmp _ (key row) (key last), hlast row hrow]
    rfl
  rw [afterCursor_some, List.filter_append, List.filter_cons, hbefore, if_neg hself, hafter,
    List.nil_append]

end

end Keyset
