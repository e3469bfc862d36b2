import ActiveTs.MemoryStore.PointReads
import Mathlib.Tactic.FinCases

/-! # The collapsed change log

The transaction keeps its full state in the private store and one net change for every row in
the log. `ChangeOf` says which net change leads from the row of the snapshot to the row of
the private store, and under which check; every operation and every savepoint keeps it, and
so the commit of the log reproduces the private store. -/

namespace ActiveTs.MemoryStore

variable {α : Type}

/-- The net change of a row from `before` to `after`. -/
def ChangeOf (before after : Option (Row α)) : Option (DirtyChange α) → Prop
  | none => after = before
  | some (.create value) => before = none ∧ after = some value
  | some (.update value expectedVersion) =>
    VersionOk before expectedVersion ∧ after = some value
  | some (.delete expectedVersion) => VersionOk before expectedVersion ∧ after = none

theorem ChangeOf.apply_eq {before after : Option (Row α)} {change : Option (DirtyChange α)}
    (h : ChangeOf before after change) : DirtyChange.apply before change = after := by
  cases change with
  | none => exact h.symm
  | some change => cases change <;> exact h.2.symm

/-! ## Marking one row -/

theorem markCreate_at?_ne {dirty : Dirty α} {a b : RowKey} (value : Row α) (hab : a ≠ b) :
    (markCreate dirty a value).at? b = dirty.at? b := by
  unfold markCreate
  split <;> rw [JsTable.at?_put, if_neg hab]

theorem markUpdate_at?_ne {dirty : Dirty α} {a b : RowKey} (value : Row α)
    (expectedVersion : Option Nat) (hab : a ≠ b) :
    (markUpdate dirty a value expectedVersion).at? b = dirty.at? b := by
  unfold markUpdate
  split <;> rw [JsTable.at?_put, if_neg hab]

theorem markDelete_at?_ne {dirty : Dirty α} {a b : RowKey} (existed : Bool)
    (expectedVersion : Option Nat) (hab : a ≠ b) :
    (markDelete dirty a existed expectedVersion).at? b = dirty.at? b := by
  unfold markDelete
  split
  · rw [JsTable.at?_prune, JsTable.at?_remove, if_neg hab]
  · rw [JsTable.at?_put, if_neg hab]
  · rw [JsTable.at?_put, if_neg hab]
  · split
    · rw [JsTable.at?_put, if_neg hab]
    · rw [JsTable.at?_prune, dirtyCollection, JsTable.at?_set_inner]

variable {dirty : Dirty α} {a : RowKey} {before after : Option (Row α)}

/-- A create marks a row that the private store did not have. -/
theorem ChangeOf.markCreate (h : ChangeOf before after (dirty.at? a)) (habsent : after = none)
    (value : Row α) : ChangeOf before (some value) ((markCreate dirty a value).at? a) := by
  unfold MemoryStore.markCreate
  split
  · next expectedVersion he =>
    rw [he] at h
    rw [JsTable.at?_put_self]
    exact ⟨h.1, rfl⟩
  · next hne =>
    rw [JsTable.at?_put_self]
    refine ⟨?_, rfl⟩
    cases hd : dirty.at? a with
    | none =>
      rw [hd] at h
      exact h.symm.trans habsent
    | some change =>
      rw [hd] at h
      cases change with
      | create current => exact h.1
      | update current expectedVersion =>
        rw [habsent] at h
        cases h.2
      | delete expectedVersion => exact absurd hd (hne expectedVersion)

/-- An update keeps the check of the first change of its row. -/
theorem ChangeOf.markUpdate (h : ChangeOf before after (dirty.at? a))
    {expectedVersion : Option Nat} (hversion : VersionOk after expectedVersion)
    (value : Row α) :
    ChangeOf before (some value) ((markUpdate dirty a value expectedVersion).at? a) := by
  unfold MemoryStore.markUpdate
  split
  · next he =>
    rw [he] at h
    rw [JsTable.at?_put_self]
    exact ⟨h.1, rfl⟩
  · next he =>
    rw [he] at h
    rw [JsTable.at?_put_self]
    exact ⟨h.1, rfl⟩
  · next he =>
    rw [he] at h
    rw [JsTable.at?_put_self]
    exact ⟨h.1, rfl⟩
  · next he =>
    rw [he] at h
    rw [JsTable.at?_put_self]
    exact ⟨h ▸ hversion, rfl⟩

/-- A delete of a created row forgets it, and a delete of a missing row marks nothing. -/
theorem ChangeOf.markDelete (h : ChangeOf before after (dirty.at? a))
    {expectedVersion : Option Nat}
    (hversion : ∀ version, expectedVersion = some version → VersionOk after (some version)) :
    ChangeOf before none ((markDelete dirty a after.isSome expectedVersion).at? a) := by
  unfold MemoryStore.markDelete
  split
  · next he =>
    rw [he] at h
    rw [JsTable.at?_prune, JsTable.at?_remove_self]
    exact h.1.symm
  · next he =>
    rw [he] at h
    rw [JsTable.at?_put_self]
    exact ⟨h.1, rfl⟩
  · next he =>
    rw [he] at h
    rw [JsTable.at?_put_self]
    exact ⟨h.1, rfl⟩
  · next he =>
    rw [he] at h
    subst h
    split
    · next hsome =>
      rw [JsTable.at?_put_self]
      refine ⟨?_, rfl⟩
      cases expectedVersion with
      | none => exact VersionOk.none_iff.mpr (Option.isSome_iff_exists.mp hsome)
      | some version => exact hversion version rfl
    · next hnone =>
      rw [JsTable.at?_prune, dirtyCollection, JsTable.at?_set_inner, he]
      exact (Option.not_isSome_iff_eq_none.mp hnone).symm

/-! ## The whole transaction -/

/-- The log collapses the private store, now and in every checkpoint. -/
structure Collapsed (c₀ : Contents α) (tx : Tx α) : Prop where
  current : ∀ a, ChangeOf (c₀ a) (tx.txStore.row? a) (tx.dirty.at? a)
  saved : ∀ c ∈ tx.checkpoints, ∀ a, ChangeOf (c₀ a) (c.collections.at? a) (c.dirty.at? a)

namespace Collapsed

variable {c₀ : Contents α} {tx tx' : Tx α}

theorem start (s : MemoryStoreAdapter α) (readOnly : Bool) :
    Collapsed s.row? (Tx.start s readOnly) where
  current _ := rfl
  saved _ h := nomatch h

/-- An operation that writes one row of the private store and marks it. -/
theorem write (h : Collapsed c₀ tx) {store : MemoryStoreAdapter α} {dirty : Dirty α}
    {a : RowKey} {v : Option (Row α)} (hrows : store.row? = Contents.write tx.txStore.row? (a, v))
    (hmark : ChangeOf (c₀ a) v (dirty.at? a)) (hother : ∀ b, a ≠ b → dirty.at? b = tx.dirty.at? b) :
    Collapsed c₀ { tx with txStore := store, dirty := dirty } where
  current b := by
    simp only [hrows, Contents.write]
    split
    · next hab => exact hab ▸ hmark
    · next hab => exact hother b hab ▸ h.current b
  saved := h.saved

theorem step (h : Collapsed c₀ tx) {entry : TxEntry α}
    (hrun : tx.run entry.1 = .ok (tx', entry.2)) : Collapsed c₀ tx' := by
  obtain ⟨op, response⟩ := entry
  cases Tx.run_cases hrun with
  | get => exact ⟨h.current, h.saved⟩
  | getMany => exact ⟨h.current, h.saved⟩
  | create hcreate =>
    obtain ⟨habsent, hw⟩ := MemoryStoreAdapter.create_ok hcreate
    exact h.write hw.rows ((h.current _).markCreate habsent _) fun b => markCreate_at?_ne _
  | update hupdate =>
    obtain ⟨hversion, hw⟩ := MemoryStoreAdapter.update_ok hupdate
    exact h.write hw.rows ((h.current _).markUpdate hversion _) fun b => markUpdate_at?_ne _ _
  | @delete model expectedVersion id store hdelete =>
    obtain ⟨hversion, _⟩ := MemoryStoreAdapter.delete_ok hdelete
    exact h.write (MemoryStoreAdapter.delete_rows hdelete) ((h.current _).markDelete hversion)
      fun b => markDelete_at?_ne _ _
  | savepoint =>
    refine ⟨h.current, fun c hc => ?_⟩
    rcases List.mem_cons.mp hc with rfl | hc
    · exact h.current
    · exact h.saved c hc
  | savepointReturn => exact ⟨h.current, fun c hc => h.saved c (List.mem_of_mem_tail hc)⟩
  | savepointThrow =>
    unfold Tx.savepointThrow
    split
    · exact h
    · next c rest hcs =>
      refine ⟨h.saved c (hcs ▸ List.mem_cons_self), fun c' hc' => h.saved c' ?_⟩
      exact hcs ▸ List.mem_cons_of_mem _ hc'

theorem of_run {s : MemoryStoreAdapter α} {readOnly : Bool} {entries : List (TxEntry α)}
    (h : Tx.Run (Tx.start s readOnly) entries tx) : Collapsed s.row? tx :=
  h.invariant (fun h hrun => h.step hrun) (start s readOnly)

end Collapsed

/-! ## Committing the log -/

namespace MemoryStoreAdapter

/-- The check of a net change passes on the row it starts from. -/
theorem checkChange_of_changeOf {s : MemoryStoreAdapter α} {a : RowKey} {change : DirtyChange α}
    (h : ChangeOf (s.row? a) after (some change)) : s.checkChange a change = .ok () := by
  cases change with
  | create value => simp [checkChange, has_eq_false.mpr h.1]
  | update value expectedVersion =>
    have hrow : ∃ row, s.row? a = some row := ⟨_, h.1.choose_spec.1⟩
    simp only [checkChange, has_iff.mpr hrow, Bool.not_true, Bool.false_eq_true, if_false]
    exact (checkVersion_ok hrow).mpr h.1
  | delete expectedVersion =>
    cases expectedVersion with
    | none => rfl
    | some version =>
      have hrow : ∃ row, s.row? a = some row := ⟨_, h.1.choose_spec.1⟩
      simp only [checkChange, has_iff.mpr hrow, Bool.not_true, Bool.false_eq_true, if_false]
      exact (checkVersion_ok hrow).mpr h.1

/-- The contents after the writes of a log, row by row. -/
theorem writes_changeWrites {s : MemoryStoreAdapter α} {dirty : Dirty α} (a : RowKey) :
    Contents.writes s.row? (s.changeWrites dirty.rows) a =
      DirtyChange.apply (s.row? a) (dirty.at? a) := by
  have hnd : ((s.changeWrites dirty.rows).map Prod.fst).Nodup := by
    rw [changeWrites, List.map_map]
    exact (JsTable.rows_addr_nodup dirty).sublist (List.filter_sublist.map _)
  cases hd : dirty.at? a with
  | none =>
    refine Contents.writes_of_not_mem _ fun hmem => ?_
    obtain ⟨w, hw, rfl⟩ := List.mem_map.mp hmem
    obtain ⟨r, hr, rfl⟩ := List.mem_map.mp hw
    have := JsTable.mem_rows_iff.mp (List.mem_filter.mp hr).1
    rw [show (r.1, r.2.1) = (JsTable.addr r, r.2.2.value).1 from rfl, hd] at this
    cases this
  | some change =>
    have hmem : (a.1, a.2, change) ∈ dirty.rows := JsTable.mem_rows_iff.mpr hd
    cases hm : s.mutates (a.1, a.2, change) with
    | true =>
      refine Contents.writes_of_mem _ hnd ?_
      exact List.mem_map.mpr ⟨_, List.mem_filter.mpr ⟨hmem, hm⟩, rfl⟩
    | false =>
      rw [Contents.writes_of_not_mem]
      · cases change with
        | create value => cases hm
        | update value expectedVersion => cases hm
        | delete expectedVersion => exact has_eq_false.mp hm
      · intro hin
        obtain ⟨w, hw, hwa⟩ := List.mem_map.mp hin
        obtain ⟨r, hr, rfl⟩ := List.mem_map.mp hw
        have hr' := List.mem_filter.mp hr
        have := JsTable.mem_rows_iff.mp hr'.1
        have hra : (r.1, r.2.1) = a := hwa
        rw [hra, hd] at this
        obtain rfl : r = (a.1, a.2, change) := by
          rw [← hra, Option.some.inj this]
        rw [hm] at hr'
        cases hr'.2

end MemoryStoreAdapter

/-- Nothing is written between two states of the machine. -/
theorem Machine.Run.quiet {m m' : Machine α} {es : List (Event α)} (h : m.Run es m')
    (hquiet : ∀ e ∈ es, e.writes = []) :
    m'.store.row? = m.store.row? ∧
      ∀ a r, m'.store.rowRevisions.at? a = some r → m.store.rowRevisions.at? a = some r := by
  refine h.history (P := fun m' es => (∀ e ∈ es, e.writes = []) →
    m'.store.row? = m.store.row? ∧
      ∀ a r, m'.store.rowRevisions.at? a = some r → m.store.rowRevisions.at? a = some r)
    ?_ (fun _ => ⟨rfl, fun _ _ hr => hr⟩) hquiet
  intro m₁ es e m₂ ih hs hquiet
  obtain ⟨hrow, hrev⟩ := ih fun e' he' => hquiet e' (List.mem_append_left _ he')
  have hwrites : e.writes = [] := hquiet e (List.mem_append_right _ List.mem_cons_self)
  obtain ⟨hrow', hrev'⟩ := hs.rows
  rw [hwrites] at hrow' hrev'
  exact ⟨hrow'.trans hrow, fun a r hr => hrev a r (hrev' a List.not_mem_nil r hr)⟩

/-- With no concurrent change of the committed rows, and room left in the revision counter for
the net changes, a transaction whose savepoints have settled commits, and the committed rows
are then those of its private store. -/
theorem commit_eq_txStore {m₀ m₁ m₂ : Machine α} {before during : List (Event α)}
    {readOnly : Bool} {tx : Tx α} (hbefore : Machine.new.Run before m₀)
    (hbegin : m₀.step (.begin readOnly) = some (m₁, .ok .done))
    (hduring : m₁.Run during m₂) (hquiet : ∀ e ∈ during, e.writes = [])
    (htx : m₂.txs[m₀.txs.length]? = some tx) (hopen : tx.closed = none)
    (hsettled : tx.checkpoints = [])
    (hroom : m₂.store.rowRevisionGeneration + tx.dirty.rows.length ≤ MAX_ROW_REVISION) :
    ∃ m₃, m₂.step (.commit m₀.txs.length) = some (m₃, .ok .done) ∧
      m₃.store.row? = tx.txStore.row? := by
  have hm₀ : m₀.Inv := Machine.Inv.new.run hbefore
  obtain ⟨tx', h⟩ := Ongoing.of_run hm₀ hbegin hduring
  obtain rfl : tx = tx' := Option.some.inj (htx.symm.trans h.get)
  have hcollapsed := Collapsed.of_run (h.run hopen)
  obtain ⟨hrow, hrev⟩ := hduring.quiet hquiet
  have hrow₀ : m₂.store.row? = m₀.store.row? := by
    cases hbegin
    exact hrow
  have hrev₀ : ∀ a r, m₂.store.rowRevisions.at? a = some r → r ≤ tx.revisionSnapshot := by
    intro a r hr
    rw [h.snapshot]
    cases hbegin
    exact hm₀.revision_le a r (hrev a r hr)
  have hchange : ∀ a, ChangeOf (m₂.store.row? a) (tx.txStore.row? a) (tx.dirty.at? a) := by
    rw [hrow₀]
    exact hcollapsed.current
  obtain ⟨store, happly⟩ : ∃ store,
      m₂.store.applyDirty tx.dirty tx.pointReads tx.revisionSnapshot = .ok store :=
    MemoryStoreAdapter.applyDirty_of_checks (fun a change hc => MemoryStoreAdapter.checkChange_of_changeOf (hc ▸ hchange a)) hrev₀
    (fun _ => Nat.le_trans (Nat.add_le_add_left List.countP_le_length _) hroom)
  have hstep : m₂.step (.commit m₀.txs.length) =
      some (⟨store.releaseTransactionSnapshot tx.revisionSnapshot,
        m₂.txs.set m₀.txs.length { tx with closed := some "commit", settled := true }⟩,
        .ok .done) := by
    simp [Machine.step, Machine.commit, htx, hopen, hsettled, happly, guard]
  refine ⟨_, hstep, ?_⟩
  have hwrites : m₂.writesOf (.commit m₀.txs.length) = m₂.store.changeWrites tx.dirty.rows := by
    simp [Machine.writesOf, htx]
  have hafter := (Machine.Step.rows
    (e := ⟨.commit m₀.txs.length, .ok .done, m₂.store.changeWrites tx.dirty.rows⟩)
    ⟨hstep, hwrites.symm⟩).1
  rw [hafter]
  funext a
  simp only [MemoryStoreAdapter.writes_changeWrites]
  exact (hchange a).apply_eq

theorem commit_eq_txStore_example :
    ∃ (m₁ m₂ m₃ : Machine Nat) (tx : Tx Nat) (during : List (Event Nat)),
      Machine.new.step (.begin false) = some (m₁, .ok .done) ∧
      m₁.exec [.tx 0 (.create "user" (.string "a") ⟨some 1, 7⟩), .tx 0 .savepoint,
        .tx 0 (.delete "user" (.string "a") (some 1)), .tx 0 .savepointThrow] =
          some (m₂, during) ∧
      m₂.txs[0]? = some tx ∧ m₂.step (.commit 0) = some (m₃, .ok .done) ∧
      m₃.store.row? = tx.txStore.row? := by
  obtain ⟨m₁, m₂, tx, during, hbegin, hduring, hquiet, htx, hopen, hsettled, hroom⟩ :
      ∃ (m₁ m₂ : Machine Nat) (tx : Tx Nat) (during : List (Event Nat)),
        Machine.new.step (.begin false) = some (m₁, .ok .done) ∧
        m₁.exec [.tx 0 (.create "user" (.string "a") ⟨some 1, 7⟩), .tx 0 .savepoint,
          .tx 0 (.delete "user" (.string "a") (some 1)), .tx 0 .savepointThrow] =
            some (m₂, during) ∧
        (∀ e ∈ during, e.writes = []) ∧ m₂.txs[0]? = some tx ∧ tx.closed = none ∧
        tx.checkpoints = [] ∧
        m₂.store.rowRevisionGeneration + tx.dirty.rows.length ≤ MAX_ROW_REVISION := by
    refine ⟨_, _, _, _, rfl, rfl, ?_, rfl, rfl, rfl, by decide⟩
    intro e he
    fin_cases he <;> rfl
  obtain ⟨m₃, hcommit, hrow⟩ :=
    commit_eq_txStore .nil hbegin (.of_exec hduring) hquiet htx hopen hsettled hroom
  exact ⟨m₁, m₂, m₃, tx, during, hbegin, hduring, htx, hcommit, hrow⟩

/-! ## The revision counter

The counter ends at the largest safe integer, and a commit that needs a revision then fails. -/

/-- A successful direct operation as a step. -/
theorem Machine.Step.of_direct {m : Machine α} {op : DirectOp α} {store : MemoryStoreAdapter α}
    {response : Response α} (h : m.store.run op = .ok (store, response)) :
    m.Step ⟨.direct op, .ok response, op.writes m.store⟩ ⟨store, m.txs⟩ := by
  refine ⟨?_, rfl⟩
  simp [Machine.step, h]

/-- Some run of direct writes to one row brings the counter to any value. -/
theorem exists_run_generation (n : Nat) (hn : n + 1 ≤ MAX_ROW_REVISION) :
    ∃ (m : Machine Nat) (es : List (Event Nat)), Machine.new.Run es m ∧ m.txs = [] ∧
      m.store.rowRevisionGeneration = n + 1 ∧
      (∃ row, m.store.row? ("user", entityIdKey (.string "a")) = some row) ∧
      m.store.row? ("user", entityIdKey (.string "b")) = none := by
  have hab : ("user", entityIdKey (.string "a")) ≠ ("user", entityIdKey (.string "b")) := by
    decide
  induction n with
  | zero =>
    obtain ⟨store, hcreate, hgen⟩ := MemoryStoreAdapter.create_of_absent
      (s := (Machine.new : Machine Nat).store) "user" (.string "a") ⟨some 1, 7⟩ rfl (by decide)
    have hrun : (Machine.new : Machine Nat).store.run
        (.create "user" (.string "a") ⟨some 1, 7⟩) = .ok (store, .done) := by
      simp [MemoryStoreAdapter.run, hcreate, Except.map]
    have hrows := (MemoryStoreAdapter.create_ok hcreate).2.rows
    refine ⟨⟨store, []⟩, _, .single (.of_direct hrun), rfl, hgen, ⟨⟨some 1, 7⟩, ?_⟩, ?_⟩
    · rw [hrows]
      simp [Contents.write]
    · rw [hrows, Contents.writes_of_not_mem _ (by simpa using Ne.symm hab)]
      rfl
  | succ n ih =>
    obtain ⟨m, es, hm, htxs, hgen, hrow, hnone⟩ := ih (by omega)
    obtain ⟨store, hupdate, hgen'⟩ := MemoryStoreAdapter.update_of_present (s := m.store)
      "user" (.string "a") ⟨some 1, 7⟩ hrow (by omega)
    have hrun : m.store.run (.update "user" (.string "a") ⟨some 1, 7⟩ none) =
        .ok (store, .done) := by
      simp [MemoryStoreAdapter.run, hupdate, Except.map]
    have hrows := (MemoryStoreAdapter.update_ok hupdate).2.rows
    refine ⟨⟨store, m.txs⟩, _, .snoc hm (.of_direct hrun), htxs, ?_, ⟨⟨some 1, 7⟩, ?_⟩, ?_⟩
    · rw [hgen', hgen]
    · rw [hrows]
      simp [Contents.write]
    · rw [hrows, Contents.writes_of_not_mem _ (by simpa using Ne.symm hab)]
      exact hnone

/-- Without room in the counter the commit can fail: after 2^53 - 1 writes a transaction that
creates one row does not commit, although nothing else runs. -/
theorem not_commit_eq_txStore :
    ¬ ∀ (m₀ m₁ m₂ : Machine Nat) (before during : List (Event Nat)) (readOnly : Bool)
        (tx : Tx Nat), Machine.new.Run before m₀ →
        m₀.step (.begin readOnly) = some (m₁, .ok .done) → m₁.Run during m₂ →
        (∀ e ∈ during, e.writes = []) → m₂.txs[m₀.txs.length]? = some tx →
        tx.closed = none → tx.checkpoints = [] →
        ∃ m₃, m₂.step (.commit m₀.txs.length) = some (m₃, .ok .done) ∧
          m₃.store.row? = tx.txStore.row? := by
  intro hclaim
  obtain ⟨m₀, before, hbefore, htxs, hgen, _, hnone⟩ :=
    exists_run_generation (MAX_ROW_REVISION - 1) (Nat.le_refl _)
  obtain ⟨store, hcreate, _⟩ := MemoryStoreAdapter.create_of_absent
    (s := (Tx.start m₀.store false).txStore) "user" (.string "b") ⟨some 1, 7⟩
    hnone (by decide : 0 < MAX_ROW_REVISION)
  have hm₁ := (Machine.Inv.new.run hbefore).begin false
  set m₁ : Machine Nat :=
    ⟨m₀.store.beginTransactionSnapshot.2, m₀.txs ++ [Tx.start m₀.store false]⟩ with hm₁_def
  set tx : Tx Nat := { Tx.start m₀.store false with
    txStore := store
    dirty := markCreate .empty ("user", entityIdKey (.string "b")) ⟨some 1, 7⟩ } with htx_def
  have hget : m₁.txs[0]? = some (Tx.start m₀.store false) := by simp [hm₁_def, htxs]
  have hrun : (Tx.start m₀.store false).run (.create "user" (.string "b") ⟨some 1, 7⟩) =
      .ok (tx, .done) := by
    refine Except.map_eq_ok.mpr ⟨tx, ?_, rfl⟩
    exact Except.bind_eq_ok.mpr ⟨store, hcreate, rfl⟩
  have hstep : m₁.Step ⟨.tx 0 (.create "user" (.string "b") ⟨some 1, 7⟩), .ok .done, []⟩
      ⟨m₁.store, m₁.txs.set 0 tx⟩ := by
    refine ⟨?_, rfl⟩
    have hguarded : (Tx.start m₀.store false).guardedRun
        (.create "user" (.string "b") ⟨some 1, 7⟩) = .ok (tx, .done) := hrun
    simp [Machine.step, hget, hguarded]
  obtain ⟨m₃, hcommit, _⟩ := hclaim m₀ m₁ _ before _ false tx hbefore rfl (.single hstep)
    (fun e he => by rw [List.mem_singleton.mp he])
    (by simp [hm₁_def, htxs]) rfl rfl
  obtain ⟨tx', store', htx', _, _, happly, _⟩ := Machine.commit_ok hcommit
  obtain rfl : tx = tx' := by
    simpa [hm₁_def, htxs] using htx'
  have hroom := (MemoryStoreAdapter.applyDirty_ok happly).room
  have hpos : 0 < tx.dirty.rows.countP m₁.store.mutates := by
    refine List.countP_pos_iff.mpr ⟨("user", entityIdKey (.string "b"), .create ⟨some 1, 7⟩),
      ?_, rfl⟩
    exact JsTable.mem_rows_iff.mpr (JsTable.at?_put_self ..)
  have hle : m₁.store.rowRevisionGeneration + _ ≤ MAX_ROW_REVISION := hroom hpos
  have hfull : m₁.store.rowRevisionGeneration = MAX_ROW_REVISION := hgen
  rw [hfull] at hle
  exact absurd hle (Nat.not_le.mpr (Nat.lt_add_of_pos_right hpos))

end ActiveTs.MemoryStore
