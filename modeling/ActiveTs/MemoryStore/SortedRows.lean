import ActiveTs.Lib.MergeBuffers
import ActiveTs.MemoryStore.Pages

/-! # Sorting the rows of the store

`sortMemoryRows` takes the keys of the rows once and merges between two buffers that it uses again and
again. The rows come out in the order of the sort, and rows that are equal in it as they came in. -/

namespace ActiveTs.MemoryStore.SortedRows

open Utf16 (Units ofString)
open KeyOrder (sign)
open Query.Cursors
open Pages (sortEntries keysAt)

inductive SortError
  | cursor (error : CursorError)
  /-- A `TypeError`: an entry is read where there is none. -/
  | missingEntry

/-- `sortMemoryRows` with its buffers. -/
def sortMemoryRows (rows : List Value) (sort : List CursorSort) : Except SortError (List Value) := do
  let prepared ← (prepareRowSort sort).mapError .cursor
  let source ← (sortEntries prepared rows).mapError .cursor
  match MergeBuffers.sort (fun a b => prepared.compareKeys a.2 b.2 ≤ 0) source with
  | none => .error .missingEntry
  | some sorted => .ok (sorted.map Prod.fst)

/-- No entry is missing: the buffers hold what the merge sort of the list gives. -/
theorem sortMemoryRows_eq (rows : List Value) (sort : List CursorSort) :
    sortMemoryRows rows sort = (Pages.sortMemoryRows rows sort).mapError .cursor := by
  rw [sortMemoryRows, Pages.sortMemoryRows]
  cases prepareRowSort sort with
  | error error => rfl
  | ok prepared =>
    change ((sortEntries prepared rows).mapError SortError.cursor >>= _) =
      (sortEntries prepared rows >>= _).mapError SortError.cursor
    cases sortEntries prepared rows with
    | error error => rfl
    | ok source =>
      change (match MergeBuffers.sort _ source with
        | none => _
        | some sorted => _) = _
      rw [MergeBuffers.sort_eq]
      rfl

/-- The rows are placed by their positions: each once, in the order of the sort, and of two equal rows
the one that came first. -/
theorem sortMemoryRows_sorts {planSort sort : List CursorSort} {idField : Units} {rows : List Value}
    (hsort : sortWithStableId planSort idField = .ok sort) (hrows : ∀ row ∈ rows, Sortable sort row) :
    ∃ placed : List (Value × Nat), placed.Perm rows.zipIdx ∧
      sortMemoryRows rows sort = .ok (placed.map Prod.fst) ∧
      placed.Pairwise fun a b => ∃ order, compareRowsBySort a.1 b.1 sort = .ok order ∧
        (order < 0 ∨ order = 0 ∧ a.2 < b.2) := by
  have hsafe := (stable_sort hsort).1
  obtain ⟨placed, hperm, hsorted, hplaced⟩ := MergeSort.sort_stable (Pages.totalPreorder_rowOrder sort) rows
  refine ⟨placed, hperm, ?_, ?_⟩
  · rw [sortMemoryRows_eq, Pages.sortMemoryRows_sortable hsafe hrows, hsorted]
    rfl
  · have hsortable : ∀ a ∈ placed, Sortable sort a.1 := by
      intro a ha
      exact hrows _ (List.fst_mem_of_mem_zipIdx (hperm.mem_iff.mp ha))
    refine hplaced.imp_of_mem ?_
    intro a b ha hb h
    obtain ⟨order, horder, hsign⟩ := compareRowsBySort_sortable hsafe (hsortable a ha) (hsortable b hb)
    refine ⟨order, horder, ?_⟩
    obtain ⟨hle, hequal⟩ := h
    rw [← hsign, KeyOrder.isLE_sign] at hle
    rcases Int.lt_or_eq_of_le hle with hlt | rfl
    · exact .inl hlt
    · refine .inr ⟨rfl, hequal ?_⟩
      rw [KeyOrder.sign_zero] at hsign
      rw [Std.OrientedCmp.eq_symm hsign.symm]
      rfl

def task (id : String) (urgent : Bool) : Value :=
  .object [(ofString "id", .data (.string (ofString id))), (ofString "urgent", .data (.boolean urgent))]

theorem sortMemoryRows_sorts_three :
    ∃ placed : List (Value × Nat),
      placed.Perm [task "b" true, task "c" false, task "a" true].zipIdx ∧
      sortMemoryRows [task "b" true, task "c" false, task "a" true]
        [⟨ofString "urgent", .desc⟩, ⟨ofString "id", .asc⟩] = .ok (placed.map Prod.fst) ∧
      placed.Pairwise fun a b => ∃ order,
        compareRowsBySort a.1 b.1 [⟨ofString "urgent", .desc⟩, ⟨ofString "id", .asc⟩] = .ok order ∧
          (order < 0 ∨ order = 0 ∧ a.2 < b.2) := by
  refine @sortMemoryRows_sorts [⟨ofString "urgent", .desc⟩] _ (ofString "id") _ rfl ?_
  intro row hrow entry hentry
  simp only [List.mem_cons, List.not_mem_nil, or_false] at hrow hentry
  rcases hrow with rfl | rfl | rfl <;> rcases hentry with rfl | rfl <;> exact ⟨_, rfl⟩

end ActiveTs.MemoryStore.SortedRows
