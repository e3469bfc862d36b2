import ActiveTs.MemoryStore.Transaction
import ActiveTs.Lib.Except
import Mathlib.Data.List.Perm.Basic

/-! # What an operation writes

Every successful operation of the adapter, and every commit, is a batch of row writes: it
changes the rows it names and gives each of them a fresh revision, which is forgotten only
when no running transaction has an older snapshot. `Wrote` states this once; the operations
are instances of it. -/

namespace ActiveTs.MemoryStore

variable {α : Type}

/-- The committed rows as a function. -/
abbrev Contents (α : Type) := RowKey → Option (Row α)

/-- A row set to a value, or removed. -/
abbrev RowWrite (α : Type) := RowKey × Option (Row α)

namespace Contents

def write (c : Contents α) (w : RowWrite α) : Contents α :=
  fun a => if w.1 = a then w.2 else c a

def writes (c : Contents α) (ws : List (RowWrite α)) : Contents α := ws.foldl write c

@[simp] theorem writes_nil (c : Contents α) : c.writes [] = c := rfl

@[simp] theorem writes_cons (c : Contents α) (w : RowWrite α) (ws : List (RowWrite α)) :
    c.writes (w :: ws) = (c.write w).writes ws := rfl

theorem writes_append (c : Contents α) (ws ws' : List (RowWrite α)) :
    c.writes (ws ++ ws') = (c.writes ws).writes ws' := List.foldl_append ..

theorem writes_of_not_mem (c : Contents α) {ws : List (RowWrite α)} {a : RowKey}
    (h : a ∉ ws.map Prod.fst) : c.writes ws a = c a := by
  induction ws generalizing c with
  | nil => rfl
  | cons w ws ih =>
    simp only [List.map_cons, List.mem_cons, not_or] at h
    rw [writes_cons, ih _ h.2, write, if_neg (Ne.symm h.1)]

/-- With one write for a row, that write decides it. -/
theorem writes_of_mem (c : Contents α) {ws : List (RowWrite α)} {a : RowKey}
    {v : Option (Row α)} (hnd : (ws.map Prod.fst).Nodup) (h : (a, v) ∈ ws) :
    c.writes ws a = v := by
  induction ws generalizing c with
  | nil => cases h
  | cons w ws ih =>
    rw [List.map_cons, List.nodup_cons] at hnd
    rcases List.mem_cons.mp h with rfl | h
    · rw [writes_cons, writes_of_not_mem _ hnd.1, write, if_pos rfl]
    · exact ih _ hnd.2 h

end Contents

namespace MemoryStoreAdapter

/-- Some running transaction was started at this generation. -/
def IsSnapshot (s : MemoryStoreAdapter α) (n : Nat) : Prop :=
  ∃ count, s.activeTransactionSnapshots.get? n = some count

theorem hasSnapshotBefore_of_isSnapshot {s : MemoryStoreAdapter α} {n r : Nat}
    (h : s.IsSnapshot n) (hn : n < r) : s.hasSnapshotBefore r := by
  rw [hasSnapshotBefore, List.any_eq_true]
  exact ⟨n, JsMap.mem_keys_iff.mpr h, by simpa using hn⟩

/-- From `s` to `s'` the rows `ws` were written under revisions above `lo`. -/
structure Wrote (lo : Nat) (s s' : MemoryStoreAdapter α) (ws : List (RowWrite α)) : Prop where
  rows : s'.row? = Contents.writes s.row? ws
  snapshots : s'.activeTransactionSnapshots = s.activeTransactionSnapshots
  generation_le : s.rowRevisionGeneration ≤ s'.rowRevisionGeneration
  untouched : ∀ a ∉ ws.map Prod.fst, s'.rowRevisions.at? a = s.rowRevisions.at? a
  revision : ∀ a r, s'.rowRevisions.at? a = some r → s.rowRevisions.at? a = some r ∨
    lo < r ∧ r ≤ s'.rowRevisionGeneration
  recorded : ∀ a ∈ ws.map Prod.fst, ∀ n, s.IsSnapshot n → n ≤ lo →
    ∃ r, s'.rowRevisions.at? a = some r ∧ lo < r

namespace Wrote

variable {lo : Nat} {s s' s'' : MemoryStoreAdapter α} {ws ws' : List (RowWrite α)}

protected theorem refl : Wrote lo s s [] where
  rows := rfl
  snapshots := rfl
  generation_le := Nat.le_refl _
  untouched _ _ := rfl
  revision _ _ h := .inl h
  recorded _ h := nomatch h

theorem isSnapshot_iff (h : Wrote lo s s' ws) {n : Nat} : s'.IsSnapshot n ↔ s.IsSnapshot n := by
  rw [IsSnapshot, h.snapshots, IsSnapshot]

protected theorem trans (h : Wrote lo s s' ws) (h' : Wrote lo s' s'' ws') :
    Wrote lo s s'' (ws ++ ws') where
  rows := by rw [h'.rows, h.rows, Contents.writes_append]
  snapshots := h'.snapshots.trans h.snapshots
  generation_le := Nat.le_trans h.generation_le h'.generation_le
  untouched a ha := by
    rw [List.map_append, List.mem_append, not_or] at ha
    rw [h'.untouched a ha.2, h.untouched a ha.1]
  revision a r hr := by
    rcases h'.revision a r hr with hr | hr
    · rcases h.revision a r hr with hr | ⟨hlo, hhi⟩
      · exact .inl hr
      · exact .inr ⟨hlo, Nat.le_trans hhi h'.generation_le⟩
    · exact .inr hr
  recorded a ha n hn hlo := by
    by_cases ha' : a ∈ ws'.map Prod.fst
    · exact h'.recorded a ha' n (h.isSnapshot_iff.mpr hn) hlo
    · rw [List.map_append, List.mem_append] at ha
      obtain ⟨r, hr, hlt⟩ := h.recorded a (ha.resolve_right ha') n hn hlo
      exact ⟨r, by rw [h'.untouched a ha', hr], hlt⟩

end Wrote

/-! ## Recording one revision -/

section record
variable (s : MemoryStoreAdapter α) (a : RowKey) (revision : Nat) (rowExists : Bool)

@[simp] theorem recordRowRevision_collections :
    (s.recordRowRevision a revision rowExists).collections = s.collections := by
  unfold recordRowRevision
  split
  · rfl
  · split <;> rfl

@[simp] theorem recordRowRevision_row? :
    (s.recordRowRevision a revision rowExists).row? = s.row? := by
  funext b
  simp only [row?, recordRowRevision_collections]

@[simp] theorem recordRowRevision_generation :
    (s.recordRowRevision a revision rowExists).rowRevisionGeneration =
      s.rowRevisionGeneration := by
  unfold recordRowRevision
  split
  · rfl
  · split <;> rfl

@[simp] theorem recordRowRevision_snapshots :
    (s.recordRowRevision a revision rowExists).activeTransactionSnapshots =
      s.activeTransactionSnapshots := by
  unfold recordRowRevision
  split
  · rfl
  · split <;> rfl

/-- The recorded revision stays unless the row is gone and no snapshot is older. -/
theorem recordRowRevision_at? (b : RowKey) :
    (s.recordRowRevision a revision rowExists).rowRevisions.at? b =
      if a = b then (if rowExists || s.hasSnapshotBefore revision then some revision else none)
      else s.rowRevisions.at? b := by
  unfold recordRowRevision
  cases rowExists with
  | true => simp [JsTable.at?_put]
  | false =>
    cases hs : s.hasSnapshotBefore revision with
    | true => simp [JsTable.at?_put]
    | false =>
      by_cases hab : a = b <;> simp [JsTable.at?_put, JsTable.at?_remove, hab]

end record

/-- A row set or removed together with its revision is a write. -/
theorem wrote_record {lo revision : Nat} {s s' : MemoryStoreAdapter α} {a : RowKey}
    {v : Option (Row α)} (hlo : lo < revision) (hhi : revision ≤ s.rowRevisionGeneration)
    (hrows : s'.row? = Contents.write s.row? (a, v))
    (hrev : s'.rowRevisions = s.rowRevisions)
    (hsnap : s'.activeTransactionSnapshots = s.activeTransactionSnapshots)
    (hgen : s'.rowRevisionGeneration = s.rowRevisionGeneration) (rowExists : Bool) :
    Wrote lo s (s'.recordRowRevision a revision rowExists) [(a, v)] where
  rows := by simpa using hrows
  snapshots := by simpa using hsnap
  generation_le := by simp [hgen]
  untouched b hb := by
    have hab : a ≠ b := fun h => hb (by simp [h])
    rw [recordRowRevision_at?, if_neg hab, hrev]
  revision b r hr := by
    rw [recordRowRevision_at?] at hr
    split at hr
    · split at hr
      · cases hr
        exact .inr ⟨hlo, by simpa [hgen] using hhi⟩
      · cases hr
    · exact .inl (hrev ▸ hr)
  recorded b hb n hn hle := by
    obtain rfl : b = a := by simpa using hb
    have hbefore : s'.hasSnapshotBefore revision :=
      hasSnapshotBefore_of_isSnapshot (n := n) (by rwa [IsSnapshot, hsnap]) (by omega)
    exact ⟨revision, by simp [recordRowRevision_at?, hbefore], hlo⟩

theorem wrote_put {lo revision : Nat} {s : MemoryStoreAdapter α} (a : RowKey) (v : Row α)
    (hlo : lo < revision) (hhi : revision ≤ s.rowRevisionGeneration) :
    Wrote lo s
      ({ s with collections := s.collections.put a v }.recordRowRevision a revision true)
      [(a, some v)] := by
  refine wrote_record hlo hhi ?_ ?_ ?_ ?_ true
  · funext b
    exact JsTable.at?_put ..
  all_goals rfl

theorem wrote_remove {lo revision : Nat} {s : MemoryStoreAdapter α} (a : RowKey)
    (hlo : lo < revision) (hhi : revision ≤ s.rowRevisionGeneration) :
    Wrote lo s
      ({ s with collections := s.collections.remove a }.recordRowRevision a revision false)
      [(a, none)] := by
  refine wrote_record hlo hhi ?_ ?_ ?_ ?_ false
  · funext b
    exact JsTable.at?_remove ..
  all_goals rfl

/-- Recording the removal of a row that is already gone. -/
theorem wrote_gone {lo revision : Nat} {s : MemoryStoreAdapter α} {a : RowKey}
    (hgone : s.row? a = none) (hlo : lo < revision) (hhi : revision ≤ s.rowRevisionGeneration) :
    Wrote lo s (s.recordRowRevision a revision false) [(a, none)] := by
  refine wrote_record hlo hhi ?_ rfl rfl rfl false
  funext b
  rcases eq_or_ne a b with rfl | hab
  · simp [Contents.write, hgone]
  · simp [Contents.write, hab]

/-! ## Batches -/

theorem reserveRowRevisions_ok {s s' : MemoryStoreAdapter α} {count first : Nat} :
    s.reserveRowRevisions count = .ok (first, s') ↔
      0 < count ∧ s.rowRevisionGeneration + count ≤ MAX_ROW_REVISION ∧
        first = s.rowRevisionGeneration + 1 ∧
        s' = { s with rowRevisionGeneration := s.rowRevisionGeneration + count } := by
  unfold reserveRowRevisions
  split
  · next h =>
    constructor
    · exact fun hh => nomatch hh
    · omega
  · next h =>
    rw [Except.ok.injEq, Prod.mk.injEq]
    constructor
    · rintro ⟨rfl, rfl⟩
      exact ⟨by omega, by omega, rfl, rfl⟩
    · rintro ⟨_, _, rfl, rfl⟩
      exact ⟨rfl, rfl⟩

/-- Taking revisions writes no row. -/
theorem wrote_generation (s : MemoryStoreAdapter α) (lo count : Nat) :
    Wrote lo s { s with rowRevisionGeneration := s.rowRevisionGeneration + count } [] where
  rows := rfl
  snapshots := rfl
  generation_le := Nat.le_add_right ..
  untouched _ _ := rfl
  revision _ _ h := .inl h
  recorded _ h := nomatch h

/-- A loop that writes one row for each item under consecutive revisions. -/
theorem wrote_numbered {β : Type} {P : MemoryStoreAdapter α → Prop} (lo first : Nat)
    {f : MemoryStoreAdapter α → β × Nat → MemoryStoreAdapter α} {w : β → RowWrite α}
    {l : List β}
    (hf : ∀ s, ∀ b ∈ l, ∀ r, P s → lo < r → r ≤ s.rowRevisionGeneration →
      P (f s (b, r)) ∧ Wrote lo s (f s (b, r)) [w b])
    {s : MemoryStoreAdapter α} (hs : P s) (hlo : 0 < l.length → lo < first)
    (hhi : 0 < l.length → first + l.length ≤ s.rowRevisionGeneration + 1) :
    Wrote lo s ((numbered first l).foldl f s) (l.map w) := by
  induction l generalizing s first with
  | nil => exact .refl
  | cons b l ih =>
    simp only [List.length_cons, Nat.zero_lt_succ, forall_const] at hlo hhi
    obtain ⟨hP, hw⟩ := hf s b List.mem_cons_self first hs hlo (by omega)
    have hgen := hw.generation_le
    have htail := ih (first + 1) (fun s b hb => hf s b (List.mem_cons_of_mem _ hb)) hP
      (by omega) (by omega)
    exact hw.trans htail

end MemoryStoreAdapter

end ActiveTs.MemoryStore
