import ActiveTs.MemoryStore.Writes
import ActiveTs.Lib.Steps
import Mathlib.Data.Option.Basic

/-! # Running snapshots

The store counts the transactions that are still running at each generation. A revision is
forgotten only when every running snapshot already contains the write it belongs to; this is
what lets a commit trust a missing revision. -/

namespace ActiveTs.MemoryStore

variable {α : Type}

namespace MemoryStoreAdapter

/-! ## Compaction -/

/-- Rows and snapshots stay; a revision goes only when no running snapshot is older. -/
structure Compacted (s s' : MemoryStoreAdapter α) : Prop where
  collections : s'.collections = s.collections
  generation : s'.rowRevisionGeneration = s.rowRevisionGeneration
  snapshots : s'.activeTransactionSnapshots = s.activeTransactionSnapshots
  revision : ∀ a, s'.rowRevisions.at? a = s.rowRevisions.at? a ∨
    s'.rowRevisions.at? a = none ∧
      ∃ r, s.rowRevisions.at? a = some r ∧ ∀ n, s.IsSnapshot n → r ≤ n

namespace Compacted

variable {s s' s'' : MemoryStoreAdapter α}

protected theorem refl : Compacted s s where
  collections := rfl
  generation := rfl
  snapshots := rfl
  revision _ := .inl rfl

theorem isSnapshot_iff (h : Compacted s s') {n : Nat} : s'.IsSnapshot n ↔ s.IsSnapshot n := by
  rw [IsSnapshot, h.snapshots, IsSnapshot]

protected theorem trans (h : Compacted s s') (h' : Compacted s' s'') : Compacted s s'' where
  collections := h'.collections.trans h.collections
  generation := h'.generation.trans h.generation
  snapshots := h'.snapshots.trans h.snapshots
  revision a := by
    rcases h.revision a with he | ⟨hnone, hr⟩
    · rcases h'.revision a with he' | ⟨hnone', r, hr, hle⟩
      · exact .inl (he'.trans he)
      · exact .inr ⟨hnone', r, he ▸ hr, fun n hn => hle n (h.isSnapshot_iff.mpr hn)⟩
    · refine .inr ⟨?_, hr⟩
      rcases h'.revision a with he' | ⟨hnone', _⟩
      · rw [he', hnone]
      · exact hnone'

theorem row?_eq (h : Compacted s s') : s'.row? = s.row? := by
  funext a
  rw [row?, h.collections, row?]

/-- A revision above a running snapshot survives. -/
theorem keeps (h : Compacted s s') {a : RowKey} {r n : Nat} (hr : s.rowRevisions.at? a = some r)
    (hn : s.IsSnapshot n) (hlt : n < r) : s'.rowRevisions.at? a = some r := by
  rcases h.revision a with he | ⟨_, r', hr', hle⟩
  · exact he.trans hr
  · obtain rfl : r = r' := by
      rw [hr] at hr'
      exact Option.some.inj hr'
    exact absurd hlt (Nat.not_lt.mpr (hle n hn))

/-- A revision found after a compaction was there before. -/
theorem revision_of (h : Compacted s s') {a : RowKey} {r : Nat}
    (hr : s'.rowRevisions.at? a = some r) : s.rowRevisions.at? a = some r := by
  rcases h.revision a with he | ⟨hnone, _⟩
  · exact he ▸ hr
  · rw [hnone] at hr
    cases hr

end Compacted

/-- No running snapshot is older than `oldest`. -/
def OldestBound (oldest : Option Nat) (s : MemoryStoreAdapter α) : Prop :=
  ∀ n, s.IsSnapshot n → ∃ o, oldest = some o ∧ o ≤ n

theorem foldl_oldest (l : List Nat) (acc : Option Nat) :
    let oldest := l.foldl
      (fun oldest snapshot =>
        match oldest with
        | none => some snapshot
        | some o => if snapshot < o then some snapshot else some o)
      acc
    (∀ o, acc = some o → ∃ o', oldest = some o' ∧ o' ≤ o) ∧
      ∀ n ∈ l, ∃ o, oldest = some o ∧ o ≤ n := by
  induction l generalizing acc with
  | nil => exact ⟨fun o h => ⟨o, h, Nat.le_refl _⟩, fun _ hn => (nomatch hn)⟩
  | cons x l ih =>
    simp only [List.foldl_cons, List.forall_mem_cons]
    cases acc with
    | none =>
      obtain ⟨hacc, hl⟩ := ih (some x)
      exact ⟨fun _ h => (nomatch h), hacc x rfl, hl⟩
    | some o =>
      obtain ⟨hacc, hl⟩ := ih (if x < o then some x else some o)
      have hmin : ∃ p, (if x < o then some x else some o) = some p ∧ p ≤ x ∧ p ≤ o := by
        split
        · exact ⟨x, rfl, by omega, by omega⟩
        · exact ⟨o, rfl, by omega, by omega⟩
      obtain ⟨p, hp, hpx, hpo⟩ := hmin
      obtain ⟨q, hq, hqp⟩ := hacc p hp
      refine ⟨fun o' ho' => ?_, ⟨q, hq, by omega⟩, hl⟩
      cases ho'
      exact ⟨q, hq, by omega⟩

theorem oldestSnapshot_bound (s : MemoryStoreAdapter α) : OldestBound s.oldestSnapshot s :=
  fun n hn => (foldl_oldest _ none).2 n (JsMap.mem_keys_iff.mpr hn)

theorem compactTombstone_compacted {oldest : Option Nat} {s : MemoryStoreAdapter α} (a : RowKey)
    (revision : Nat) (hb : OldestBound oldest s) :
    Compacted s (s.compactTombstone oldest a revision) := by
  unfold compactTombstone
  split
  · next hall =>
    refine ⟨rfl, rfl, rfl, fun b => ?_⟩
    split
    · next hr =>
      rcases eq_or_ne a b with rfl | hab
      · refine .inr ⟨JsTable.at?_remove_self .., revision, hr, fun n hn => ?_⟩
        obtain ⟨o, ho, hon⟩ := hb n hn
        rw [ho, Option.all_some, decide_eq_true_eq] at hall
        exact Nat.le_trans hall hon
      · exact .inl (by rw [JsTable.at?_remove, if_neg hab])
    · exact .inl rfl
  · exact .refl

theorem Compacted.foldl {β : Type} (oldest : Option Nat)
    {f : MemoryStoreAdapter α → β → MemoryStoreAdapter α}
    (hf : ∀ s b, OldestBound oldest s → Compacted s (f s b)) {s : MemoryStoreAdapter α}
    (hs : OldestBound oldest s) (l : List β) : Compacted s (l.foldl f s) := by
  induction l generalizing s with
  | nil => exact .refl
  | cons b l ih =>
    have h := hf s b hs
    exact h.trans (ih fun n hn => hs n (h.isSnapshot_iff.mp hn))

theorem compact_compacted (s : MemoryStoreAdapter α) :
    Compacted s s.compactRowRevisionTombstones := by
  refine Compacted.foldl s.oldestSnapshot (fun s e hs => ?_)
    (oldestSnapshot_bound s) _
  have hinner := Compacted.foldl _
    (f := fun s (r : String × Nat) => compactTombstone _ s (e.1, r.1) r.2)
    (fun s r hs => compactTombstone_compacted (e.1, r.1) r.2 hs) hs e.2.entries
  refine hinner.trans ⟨rfl, rfl, rfl, fun a => .inl ?_⟩
  exact JsTable.at?_prune ..

end MemoryStoreAdapter

/-! ## Transaction operations -/

/-- What a successful operation does to the transaction. -/
inductive Tx.RunCase (tx : Tx α) : TxOp α → Tx α → Response α → Prop where
  | get {id : EntityId} : RunCase tx (.get model id)
      { tx with pointReads := recordPointRead tx.pointReads (model, entityIdKey id) }
      (.row (tx.txStore.get model id))
  | getMany : RunCase tx (.getMany model ids)
      { tx with
        pointReads := ids.foldl
          (fun reads id => recordPointRead reads (model, entityIdKey id)) tx.pointReads }
      (.rows (tx.txStore.getMany model ids))
  | create {id : EntityId} {store : MemoryStoreAdapter α} :
      tx.txStore.create model id data = .ok store →
      RunCase tx (.create model id data)
        { tx with
          txStore := store, dirty := markCreate tx.dirty (model, entityIdKey id) data } .done
  | update {id : EntityId} {store : MemoryStoreAdapter α} :
      tx.txStore.update model id data expectedVersion = .ok store →
      RunCase tx (.update model id data expectedVersion)
        { tx with
          txStore := store
          dirty := markUpdate tx.dirty (model, entityIdKey id) data expectedVersion } .done
  | delete {id : EntityId} {store : MemoryStoreAdapter α} :
      tx.txStore.delete model id expectedVersion = .ok store →
      RunCase tx (.delete model id expectedVersion)
        { tx with
          txStore := store
          dirty := markDelete tx.dirty (model, entityIdKey id)
            (tx.txStore.has (model, entityIdKey id)) expectedVersion } .done
  | savepoint : RunCase tx .savepoint tx.savepoint .done
  | savepointReturn : RunCase tx .savepointReturn tx.savepointReturn .done
  | savepointThrow : RunCase tx .savepointThrow tx.savepointThrow .done

theorem Tx.run_cases {tx tx' : Tx α} {op : TxOp α} {response : Response α}
    (h : tx.run op = .ok (tx', response)) : tx.RunCase op tx' response := by
  cases op with
  | get model id =>
    cases h
    exact .get
  | getMany model ids =>
    cases h
    exact .getMany
  | create model id data =>
    obtain ⟨_, hop, he⟩ := Except.map_eq_ok.mp h
    cases he
    unfold Tx.create at hop
    split at hop
    · cases hop
    · obtain ⟨store, hcreate, he⟩ := Except.bind_eq_ok.mp hop
      cases he
      exact .create hcreate
  | update model id data expectedVersion =>
    obtain ⟨_, hop, he⟩ := Except.map_eq_ok.mp h
    cases he
    unfold Tx.update at hop
    split at hop
    · cases hop
    · obtain ⟨store, hupdate, he⟩ := Except.bind_eq_ok.mp hop
      cases he
      exact .update hupdate
  | delete model id expectedVersion =>
    obtain ⟨_, hop, he⟩ := Except.map_eq_ok.mp h
    cases he
    unfold Tx.delete at hop
    split at hop
    · cases hop
    · obtain ⟨store, hdelete, he⟩ := Except.bind_eq_ok.mp hop
      cases he
      exact .delete hdelete
  | savepoint =>
    cases h
    exact .savepoint
  | savepointReturn =>
    cases h
    exact .savepointReturn
  | savepointThrow =>
    cases h
    exact .savepointThrow

theorem Tx.RunCase.frame {tx tx' : Tx α} {op : TxOp α} {response : Response α}
    (h : tx.RunCase op tx' response) :
    tx'.revisionSnapshot = tx.revisionSnapshot ∧ tx'.settled = tx.settled ∧
      tx'.closed = tx.closed := by
  cases h with
  | savepointThrow =>
    unfold Tx.savepointThrow
    split <;> exact ⟨rfl, rfl, rfl⟩
  | _ => exact ⟨rfl, rfl, rfl⟩

/-- A successful operation with its response. -/
abbrev TxEntry (α : Type) := TxOp α × Response α

/-- A run of successful operations on an open transaction. -/
abbrev Tx.Run (tx : Tx α) (entries : List (TxEntry α)) (tx' : Tx α) : Prop :=
  Steps (fun tx e tx' => tx.run e.1 = .ok (tx', e.2)) tx entries tx'

/-! ## Runs -/

/-- The rows that an operation of the adapter writes. -/
def DirectOp.writes (s : MemoryStoreAdapter α) : DirectOp α → List (RowWrite α)
  | .get .. | .getMany .. => []
  | .create model id data => [((model, entityIdKey id), some data)]
  | .update model id data _ => [((model, entityIdKey id), some data)]
  | .delete model id _ =>
    if s.has (model, entityIdKey id) then [((model, entityIdKey id), none)] else []
  | .seed model rows => rows.map fun r => ((model, entityIdKey r.1), some r.2)
  | .reset model => (s.resetRows model).map (·, none)

theorem MemoryStoreAdapter.run_wrote {s s' : MemoryStoreAdapter α} {op : DirectOp α}
    {response : Response α} (h : s.run op = .ok (s', response)) :
    s.Wrote s.rowRevisionGeneration s' (op.writes s) := by
  cases op with
  | get model id =>
    cases h
    exact .refl
  | getMany model ids =>
    cases h
    exact .refl
  | create model id data =>
    obtain ⟨_, hop, he⟩ := Except.map_eq_ok.mp h
    cases he
    exact (create_ok hop).2
  | update model id data expectedVersion =>
    obtain ⟨_, hop, he⟩ := Except.map_eq_ok.mp h
    cases he
    exact (update_ok hop).2
  | delete model id expectedVersion =>
    obtain ⟨_, hop, he⟩ := Except.map_eq_ok.mp h
    cases he
    exact (delete_ok hop).2
  | seed model rows =>
    obtain ⟨_, hop, he⟩ := Except.map_eq_ok.mp h
    cases he
    exact seed_ok hop
  | reset model =>
    obtain ⟨_, hop, he⟩ := Except.map_eq_ok.mp h
    cases he
    exact reset_ok hop

/-- One step as seen from outside: the action, its outcome, and the committed rows it wrote. -/
structure Event (α : Type) where
  action : Action α
  outcome : Except StoreError (Response α)
  writes : List (RowWrite α)

namespace Machine

/-- The committed rows that a successful action writes. -/
def writesOf (m : Machine α) : Action α → List (RowWrite α)
  | .direct op => op.writes m.store
  | .commit t => (m.txs[t]?.map fun tx => m.store.changeWrites tx.dirty.rows).getD []
  | _ => []

/-- The step relation with its event. A failed action writes nothing. -/
def Step (m : Machine α) (e : Event α) (m' : Machine α) : Prop :=
  m.step e.action = some (m', e.outcome) ∧
    e.writes = if e.outcome.isOk then m.writesOf e.action else []

abbrev Run (m : Machine α) (es : List (Event α)) (m' : Machine α) : Prop := Steps Step m es m'

theorem Run.det {m m₁ m₂ : Machine α} {es : List (Event α)} (h₁ : m.Run es m₁)
    (h₂ : m.Run es m₂) : m₁ = m₂ := by
  refine Steps.det (fun h h' => ?_) h₁ h₂
  have := h.1.symm.trans h'.1
  exact (Prod.mk.inj (Option.some.inj this)).1

/-- Take a list of actions one after another. -/
def exec (m : Machine α) : List (Action α) → Option (Machine α × List (Event α))
  | [] => some (m, [])
  | action :: rest => do
    let (m₁, outcome) ← m.step action
    let (m₂, es) ← m₁.exec rest
    return (m₂, ⟨action, outcome, if outcome.isOk then m.writesOf action else []⟩ :: es)

theorem Run.of_exec {m m' : Machine α} {actions : List (Action α)} {es : List (Event α)}
    (h : m.exec actions = some (m', es)) : m.Run es m' := by
  induction actions generalizing m es with
  | nil =>
    cases h
    exact .nil
  | cons action rest ih =>
    obtain ⟨⟨m₁, outcome⟩, hstep, h⟩ := Option.bind_eq_some_iff.mp h
    obtain ⟨⟨m₂, es'⟩, hrest, h⟩ := Option.bind_eq_some_iff.mp h
    cases h
    exact (Steps.single ⟨hstep, rfl⟩).trans (ih hrest)

/-- What one step does to the machine. -/
inductive StepCase (m : Machine α) : Event α → Machine α → Prop where
  /-- A failed operation. -/
  | failed : StepCase m ⟨action, .error error, []⟩ m
  | direct {store : MemoryStoreAdapter α} : m.store.run op = .ok (store, response) →
      StepCase m ⟨.direct op, .ok response, op.writes m.store⟩ ⟨store, m.txs⟩
  | begin : StepCase m ⟨.begin readOnly, .ok .done, []⟩
      ⟨m.store.beginTransactionSnapshot.2, m.txs ++ [Tx.start m.store readOnly]⟩
  | tx : m.txs[t]? = some tx → tx.closed = none → tx.run op = .ok (tx', response) →
      StepCase m ⟨.tx t op, .ok response, []⟩ ⟨m.store, m.txs.set t tx'⟩
  | commit {store : MemoryStoreAdapter α} :
      m.txs[t]? = some tx → tx.closed = none → tx.checkpoints = [] →
      m.store.applyDirty tx.dirty tx.pointReads tx.revisionSnapshot = .ok store →
      StepCase m ⟨.commit t, .ok .done, m.store.changeWrites tx.dirty.rows⟩
        ⟨store.releaseTransactionSnapshot tx.revisionSnapshot,
          m.txs.set t { tx with closed := some "commit", settled := true }⟩
  | commitFailed : m.txs[t]? = some tx → tx.closed = none →
      StepCase m ⟨.commit t, .error error, []⟩
        ⟨m.store, m.txs.set t { tx with closed := some "rollback" }⟩
  | rollback : m.txs[t]? = some tx → tx.settled = false →
      StepCase m ⟨.rollback t, .ok .done, []⟩
        ⟨m.store.releaseTransactionSnapshot tx.revisionSnapshot,
          m.txs.set t { tx with closed := some "rollback", settled := true }⟩

theorem Step.cases {m m' : Machine α} {e : Event α} (h : m.Step e m') : StepCase m e m' := by
  obtain ⟨action, outcome, writes⟩ := e
  obtain ⟨h, hw⟩ := h
  simp only at h hw
  cases action with
  | direct op =>
    simp only [step] at h
    split at h
    · next hrun =>
      cases h
      subst hw
      exact .direct hrun
    · cases h
      subst hw
      exact .failed
  | begin readOnly =>
    cases h
    subst hw
    exact .begin
  | tx t op =>
    obtain ⟨tx, htx, h⟩ := Option.bind_eq_some_iff.mp h
    split at h
    · next hrun =>
      cases h
      subst hw
      unfold Tx.guardedRun at hrun
      split at hrun
      · cases hrun
      · next hopen => exact .tx htx hopen hrun
    · cases h
      subst hw
      exact .failed
  | commit t =>
    obtain ⟨tx, htx, h⟩ := Option.bind_eq_some_iff.mp h
    obtain ⟨⟨⟩, hguard, h⟩ := Option.bind_eq_some_iff.mp h
    rw [Option.guard_eq_some'] at hguard
    have hopen := Option.isNone_iff_eq_none.mp hguard.1
    split at h
    · next hcommit =>
      cases h
      simp only [writesOf, htx, Except.isOk, Except.toBool] at hw
      subst hw
      exact .commit htx hopen (List.isEmpty_iff.mp hguard.2) hcommit
    · cases h
      subst hw
      exact .commitFailed htx hopen
  | rollback t =>
    obtain ⟨tx, htx, h⟩ := Option.bind_eq_some_iff.mp h
    obtain ⟨⟨⟩, hguard, h⟩ := Option.bind_eq_some_iff.mp h
    rw [Option.guard_eq_some'] at hguard
    cases h
    subst hw
    exact .rollback htx (by simpa using hguard)

/-- The committed rows change by the writes of the event, and no revision appears beside them. -/
theorem Step.rows {m m' : Machine α} {e : Event α} (h : m.Step e m') :
    m'.store.row? = Contents.writes m.store.row? e.writes ∧
      ∀ a ∉ e.writes.map Prod.fst, ∀ r, m'.store.rowRevisions.at? a = some r →
        m.store.rowRevisions.at? a = some r := by
  cases h.cases with
  | failed => exact ⟨rfl, fun _ _ _ hr => hr⟩
  | direct hrun =>
    have hw := MemoryStoreAdapter.run_wrote hrun
    exact ⟨hw.rows, fun a ha r hr => hw.untouched a ha ▸ hr⟩
  | begin => exact ⟨rfl, fun _ _ _ hr => hr⟩
  | tx => exact ⟨rfl, fun _ _ _ hr => hr⟩
  | @commit _ tx store _ _ _ hcommit =>
    have hw := (MemoryStoreAdapter.applyDirty_ok hcommit).wrote
    have hc := MemoryStoreAdapter.compact_compacted { store with
      activeTransactionSnapshots := MemoryStoreAdapter.releaseSnapshot
        store.activeTransactionSnapshots tx.revisionSnapshot }
    refine ⟨hc.row?_eq.trans hw.rows, fun a ha r hr => ?_⟩
    rw [← hw.untouched a ha]
    exact hc.revision_of hr
  | commitFailed => exact ⟨rfl, fun _ _ _ hr => hr⟩
  | @rollback _ tx =>
    have hc := MemoryStoreAdapter.compact_compacted { m.store with
      activeTransactionSnapshots := MemoryStoreAdapter.releaseSnapshot
        m.store.activeTransactionSnapshots tx.revisionSnapshot }
    exact ⟨hc.row?_eq, fun a _ r hr => hc.revision_of hr⟩

/-- A commit that returned. -/
theorem commit_ok {m m' : Machine α} {t : TxId} {response : Response α}
    (h : m.step (.commit t) = some (m', .ok response)) :
    ∃ tx store, m.txs[t]? = some tx ∧ tx.closed = none ∧ tx.checkpoints = [] ∧
      m.store.applyDirty tx.dirty tx.pointReads tx.revisionSnapshot = .ok store ∧
      m' = ⟨store.releaseTransactionSnapshot tx.revisionSnapshot,
        m.txs.set t { tx with closed := some "commit", settled := true }⟩ := by
  obtain ⟨ws, hstep⟩ : ∃ ws, m.Step ⟨.commit t, .ok response, ws⟩ m' := ⟨_, h, rfl⟩
  generalize he : (⟨.commit t, .ok response, ws⟩ : Event α) = e at hstep
  cases hstep.cases with
  | commit htx hopen hsettled hcommit =>
    cases he
    exact ⟨_, _, htx, hopen, hsettled, hcommit, rfl⟩
  | _ => cases he

end Machine

end ActiveTs.MemoryStore
