import ActiveTs.MemoryStore.Replay

/-! # Committed transactions run as if one after another

The commit validates the rows read by key and the first change of every row that still has a
net change. Where that covers all a transaction has seen, its operations give the same
responses when they are replayed, at the moment of the commit, on the committed rows. -/

namespace ActiveTs.MemoryStore

variable {α : Type}

/-! ## What the log remembers of the first write -/

/-- The check that the commit makes for a row, against that of the first write to it. A row
without a net change was absent at the snapshot. -/
def FirstCheck (w : TxOp α) (before : Option (Row α)) : Option (DirtyChange α) → Prop
  | none => before = none
  | some (.create _) => w.PassesOn none
  | some (.update _ expectedVersion) => ∀ x, VersionOk x expectedVersion → w.PassesOn x
  | some (.delete expectedVersion) => ∀ x, VersionOk x expectedVersion → w.PassesOn x

section
variable {dirty : Dirty α} {a : RowKey} {before after : Option (Row α)} {w : TxOp α}

theorem FirstCheck.markCreate (h : FirstCheck w before (dirty.at? a))
    (hchange : ChangeOf before after (dirty.at? a)) (habsent : after = none)
    (hpass : w.PassesOn before) (value : Row α) :
    FirstCheck w before ((markCreate dirty a value).at? a) := by
  unfold MemoryStore.markCreate
  split
  · next he =>
    rw [he] at h
    rw [JsTable.at?_put_self]
    exact h
  · next hne =>
    rw [JsTable.at?_put_self]
    cases hd : dirty.at? a with
    | none =>
      rw [hd] at h
      exact h ▸ hpass
    | some change =>
      rw [hd] at h
      cases change with
      | create current => exact h
      | update current expectedVersion =>
        rw [hd, habsent] at hchange
        cases hchange.2
      | delete expectedVersion => exact absurd hd (hne expectedVersion)

theorem FirstCheck.markUpdate (h : FirstCheck w before (dirty.at? a))
    (hchange : ChangeOf before after (dirty.at? a)) {expectedVersion : Option Nat}
    (hversion : VersionOk after expectedVersion) (value : Row α) :
    FirstCheck w before ((markUpdate dirty a value expectedVersion).at? a) := by
  unfold MemoryStore.markUpdate
  split
  · next he =>
    rw [he] at h
    rw [JsTable.at?_put_self]
    exact h
  · next he =>
    rw [he] at h
    rw [JsTable.at?_put_self]
    exact h
  · next he =>
    rw [he] at h
    rw [JsTable.at?_put_self]
    exact h
  · next he =>
    -- the row was absent at the snapshot and still is, so it cannot be updated
    rw [he] at h hchange
    obtain ⟨row, hrow, _⟩ := hversion
    have hnone : after = none := hchange.trans h
    rw [hrow] at hnone
    cases hnone

theorem FirstCheck.markDelete (h : FirstCheck w before (dirty.at? a))
    (hchange : ChangeOf before after (dirty.at? a)) (expectedVersion : Option Nat) :
    FirstCheck w before ((markDelete dirty a after.isSome expectedVersion).at? a) := by
  unfold MemoryStore.markDelete
  split
  · next he =>
    rw [he] at hchange
    rw [JsTable.at?_prune, JsTable.at?_remove_self]
    exact hchange.1
  · next he =>
    rw [he] at h
    rw [JsTable.at?_put_self]
    exact h
  · next he =>
    rw [he] at h
    rw [JsTable.at?_put_self]
    exact h
  · next he =>
    rw [he] at h hchange
    have hnone : after = none := hchange.trans h
    rw [hnone, if_neg (by simp), JsTable.at?_prune, dirtyCollection, JsTable.at?_set_inner, he]
    exact h

theorem FirstCheck.firstCreate (hd : dirty.at? a = none) (model : String) (id : EntityId)
    (value : Row α) : FirstCheck (.create model id value) before
      ((MemoryStore.markCreate dirty a value).at? a) := by
  simp only [MemoryStore.markCreate, hd, JsTable.at?_put_self]
  exact (rfl : (none : Option (Row α)) = none)

theorem FirstCheck.firstUpdate (hd : dirty.at? a = none) (model : String) (id : EntityId)
    (value : Row α) (expectedVersion : Option Nat) :
    FirstCheck (.update model id value expectedVersion) before
      ((MemoryStore.markUpdate dirty a value expectedVersion).at? a) := by
  simp only [MemoryStore.markUpdate, hd, JsTable.at?_put_self]
  exact fun _ hx => hx

theorem FirstCheck.firstDelete (hd : dirty.at? a = none) (model : String) (id : EntityId)
    (expectedVersion : Option Nat) : FirstCheck (.delete model id expectedVersion) before
      ((MemoryStore.markDelete dirty a before.isSome expectedVersion).at? a) := by
  simp only [MemoryStore.markDelete, hd]
  split
  · rw [JsTable.at?_put_self]
    intro x hx version hversion
    exact hversion ▸ hx
  · next hnone =>
    rw [JsTable.at?_prune, dirtyCollection, JsTable.at?_set_inner, hd]
    exact Option.not_isSome_iff_eq_none.mp hnone

end

/-- The log of a transaction that uses only point operations: what it read is recorded, and the
commit's check of each written row implies that of its first write. -/
structure LogChecks (c₀ : Contents α) (entries : List (TxEntry α)) (tx : Tx α) : Prop where
  reads : ∀ e ∈ entries, ∀ a ∈ e.1.reads, tx.pointReads.contains a
  first : ∀ a w, firstWrite a entries = some w →
    w.PassesOn (c₀ a) ∧ FirstCheck w (c₀ a) (tx.dirty.at? a)
  clean : ∀ a, firstWrite a entries = none → tx.dirty.at? a = none

namespace LogChecks

variable {c₀ : Contents α} {entries : List (TxEntry α)} {tx tx' : Tx α} {entry : TxEntry α}

/-- An operation that only reads. -/
theorem read (h : LogChecks c₀ entries tx) {pointReads : PointReadSet}
    (htarget : entry.1.target = none)
    (hreads : ∀ a, pointReads.contains a ↔ a ∈ entry.1.reads ∨ tx.pointReads.contains a) :
    LogChecks c₀ (entries ++ [entry]) { tx with pointReads := pointReads } where
  reads e he a ha := by
    rw [hreads]
    rcases List.mem_append.mp he with he | he
    · exact .inr (h.reads e he a ha)
    · exact .inl (List.mem_singleton.mp he ▸ ha)
  first a w hw := h.first a w (by simpa [firstWrite_append, htarget] using hw)
  clean a ha := h.clean a (by simpa [firstWrite_append, htarget] using ha)

/-- An operation that writes the row `a`. -/
theorem write (h : LogChecks c₀ entries tx) {store : MemoryStoreAdapter α} {dirty : Dirty α}
    {a : RowKey} (htarget : entry.1.target = some a) (hreads : entry.1.reads = [])
    (hother : ∀ b, a ≠ b → dirty.at? b = tx.dirty.at? b)
    (hlater : ∀ w, firstWrite a entries = some w → FirstCheck w (c₀ a) (dirty.at? a))
    (hfirst : firstWrite a entries = none →
      entry.1.PassesOn (c₀ a) ∧ FirstCheck entry.1 (c₀ a) (dirty.at? a)) :
    LogChecks c₀ (entries ++ [entry]) { tx with txStore := store, dirty := dirty } where
  reads e he b hb := by
    rcases List.mem_append.mp he with he | he
    · exact h.reads e he b hb
    · rw [List.mem_singleton.mp he, hreads] at hb
      cases hb
  first b w hw := by
    rw [firstWrite_append] at hw
    rcases eq_or_ne a b with rfl | hab
    · cases hf : firstWrite a entries with
      | some w' =>
        rw [hf, Option.some_or] at hw
        cases hw
        exact ⟨(h.first a w hf).1, hlater w hf⟩
      | none =>
        rw [hf, Option.none_or, if_pos htarget] at hw
        cases hw
        exact hfirst hf
    · have hne : entry.1.target ≠ some b := by
        rw [htarget]
        exact fun he => hab (Option.some.inj he)
      rw [if_neg hne, Option.or_none] at hw
      rw [hother b hab]
      exact h.first b w hw
  clean b hb := by
    rw [firstWrite_append, Option.or_eq_none_iff] at hb
    have hab : a ≠ b := by
      rintro rfl
      rw [if_pos htarget] at hb
      cases hb.2
    rw [hother b hab]
    exact h.clean b hb.1

theorem step (h : LogChecks c₀ entries tx) (hcollapsed : Collapsed c₀ tx)
    (hpoint : entry.1.isPoint) (hrun : tx.run entry.1 = .ok (tx', entry.2)) :
    LogChecks c₀ (entries ++ [entry]) tx' := by
  obtain ⟨op, response⟩ := entry
  cases Tx.run_cases hrun with
  | get =>
    refine h.read rfl fun a => ?_
    rw [contains_recordPointRead, TxOp.reads, List.mem_singleton]
  | getMany => exact h.read rfl fun a => contains_recordPointReads
  | @create model data id store hcreate =>
    obtain ⟨habsent, _⟩ := MemoryStoreAdapter.create_ok hcreate
    have hchange := hcollapsed.current (model, entityIdKey id)
    refine h.write rfl rfl (fun b => markCreate_at?_ne _) (fun w hw => ?_) fun hf => ?_
    · obtain ⟨hpass, hcheck⟩ := h.first _ w hw
      exact hcheck.markCreate hchange habsent hpass data
    · rw [h.clean _ hf] at hchange
      refine ⟨hchange.symm.trans habsent, ?_⟩
      exact .firstCreate (h.clean _ hf) model id data
  | @update model data expectedVersion id store hupdate =>
    obtain ⟨hversion, _⟩ := MemoryStoreAdapter.update_ok hupdate
    have hchange := hcollapsed.current (model, entityIdKey id)
    refine h.write rfl rfl (fun b => markUpdate_at?_ne _ _) (fun w hw => ?_) fun hf => ?_
    · exact (h.first _ w hw).2.markUpdate hchange hversion data
    · rw [h.clean _ hf] at hchange
      refine ⟨hchange ▸ hversion, ?_⟩
      exact .firstUpdate (h.clean _ hf) model id data expectedVersion
  | @delete model expectedVersion id store hdelete =>
    obtain ⟨hversion, _⟩ := MemoryStoreAdapter.delete_ok hdelete
    have hchange := hcollapsed.current (model, entityIdKey id)
    refine h.write rfl rfl (fun b => markDelete_at?_ne _ _) (fun w hw => ?_) fun hf => ?_
    · exact (h.first _ w hw).2.markDelete hchange expectedVersion
    · rw [h.clean _ hf] at hchange
      have hrow : tx.txStore.has (model, entityIdKey id) =
          (c₀ (model, entityIdKey id)).isSome := by
        rw [← hchange]
        rfl
      refine ⟨fun version hv => hchange ▸ hversion version hv, ?_⟩
      rw [hrow]
      exact .firstDelete (h.clean _ hf) model id expectedVersion
  | savepoint => cases hpoint
  | savepointReturn => cases hpoint
  | savepointThrow => cases hpoint

theorem of_run {s₀ : MemoryStoreAdapter α} {readOnly : Bool}
    (h : Tx.Run (Tx.start s₀ readOnly) entries tx) (hpoint : ∀ e ∈ entries, e.1.isPoint) :
    LogChecks s₀.row? entries tx := by
  have hboth : Collapsed s₀.row? tx ∧ LogChecks s₀.row? entries tx := by
    refine h.history (P := fun tx entries => (∀ e ∈ entries, e.1.isPoint) →
      Collapsed s₀.row? tx ∧ LogChecks s₀.row? entries tx) ?_ (fun _ => ?_) hpoint
    · intro tx entries entry tx' ih hrun hpoint
      obtain ⟨hc, hl⟩ := ih fun e he => hpoint e (List.mem_append_left _ he)
      have hp := hpoint entry (List.mem_append_right _ List.mem_cons_self)
      exact ⟨hc.step hrun, hl.step hc hp hrun⟩
    · exact ⟨.start s₀ readOnly, fun _ he => (nomatch he), fun _ _ hw => (nomatch hw),
        fun _ _ => rfl⟩
  exact hboth.2

end LogChecks

/-! ## The commit -/

/-- A net change whose check covers the first write `w` of its row: any but an unversioned
delete that did not begin as one. -/
def CoversFirst (w : TxOp α) : Option (DirtyChange α) → Prop
  | none => False
  | some (.delete none) => ∃ model id, w = .delete model id none
  | some _ => True

/-- Every row that the transaction wrote was also read by key, or has a net change whose check
covers its first write. -/
def Validated (entries : List (TxEntry α)) (tx : Tx α) : Prop :=
  ∀ a w, firstWrite a entries = some w → tx.pointReads.contains a ∨
    CoversFirst w (tx.dirty.at? a)

/-- A net change that passed the commit's check and covers the first write. -/
theorem FirstCheck.of_checkChange {s : MemoryStoreAdapter α} {a : RowKey} {w : TxOp α}
    {before : Option (Row α)} {change : DirtyChange α} (h : FirstCheck w before (some change))
    (hcovers : CoversFirst w (some change)) (hok : s.checkChange a change = .ok ()) :
    w.PassesOn (s.row? a) := by
  have hversion : ∀ {target : String} {expectedVersion : Option Nat},
      (if !s.has a then Except.error (StoreError.notFound target)
        else s.checkVersion a s!"{a.1}:{a.2}" expectedVersion) = .ok () →
      VersionOk (s.row? a) expectedVersion := by
    intro target expectedVersion hok
    split at hok
    · cases hok
    · next hhas =>
      have hrow := MemoryStoreAdapter.has_iff.mp (by simpa using hhas : s.has a)
      exact (MemoryStoreAdapter.checkVersion_ok hrow).mp hok
  cases change with
  | create value =>
    simp only [MemoryStoreAdapter.checkChange] at hok
    split at hok
    · cases hok
    · next hhas =>
      rw [MemoryStoreAdapter.has_eq_false.mp (by simpa using hhas)]
      exact h
  | update value expectedVersion => exact h _ (hversion hok)
  | delete expectedVersion =>
    cases expectedVersion with
    | some version => exact h _ (hversion hok)
    | none =>
      obtain ⟨model, id, rfl⟩ := hcovers
      intro version hv
      cases hv

/-- What the commit validated is enough to replay the transaction on the committed rows. -/
theorem Agrees.of_commit {s s' : MemoryStoreAdapter α} {c₀ : Contents α}
    {entries : List (TxEntry α)} {tx : Tx α} {es : List (Event α)}
    (hlog : LogChecks c₀ entries tx) (hvalid : Validated entries tx)
    (hwatch : Watch tx.revisionSnapshot c₀ es s)
    (hcommit : s.Committed s' tx.dirty tx.pointReads tx.revisionSnapshot) :
    Agrees s.row? c₀ entries ∧ ∀ a, tx.pointReads.contains a → s.row? a = c₀ a := by
  have hread : ∀ a, tx.pointReads.contains a → s.row? a = c₀ a := by
    intro a ha
    rcases hwatch a with ⟨_, hrow⟩ | ⟨r, hr, hlt⟩
    · exact hrow
    · exact absurd hlt (Nat.not_lt.mpr (hcommit.reads a ha r hr))
  refine ⟨⟨fun e he a ha => hread a (hlog.reads e he a ha), fun a w hw => ?_⟩, hread⟩
  obtain ⟨hpass, hcheck⟩ := hlog.first a w hw
  rcases hvalid a w hw with ha | hnet
  · rw [hread a ha]
    exact hpass
  · cases hd : tx.dirty.at? a with
    | none =>
      rw [hd] at hnet
      exact hnet.elim
    | some change =>
      have hok := hcommit.changes a _ hd
      rw [hd] at hcheck hnet
      exact hcheck.of_checkChange hnet hok

/-- A validated transaction is replayed by its commit. -/
theorem commit_replay {s s' s₀ : MemoryStoreAdapter α} {readOnly : Bool}
    {entries : List (TxEntry α)} {tx : Tx α} {es : List (Event α)}
    (hrun : Tx.Run (Tx.start s₀ readOnly) entries tx) (hpoint : ∀ e ∈ entries, e.1.isPoint)
    (hvalid : Validated entries tx) (hwatch : Watch tx.revisionSnapshot s₀.row? es s)
    (hcommit : s.Committed s' tx.dirty tx.pointReads tx.revisionSnapshot) :
    Steps Contents.Exec s.row? entries (Contents.writes s.row? (s.changeWrites tx.dirty.rows)) := by
  have hlog := LogChecks.of_run hrun hpoint
  have hchange := (Collapsed.of_run hrun).current
  obtain ⟨hagrees, hread⟩ := Agrees.of_commit hlog hvalid hwatch hcommit
  obtain ⟨d, hd, hbeside⟩ := hrun.replay hpoint hagrees
  suffices Contents.writes s.row? (s.changeWrites tx.dirty.rows) = d from this ▸ hd
  funext a
  rw [MemoryStoreAdapter.writes_changeWrites]
  have ha := hchange a
  cases hf : firstWrite a entries with
  | none =>
    rw [hlog.clean a hf]
    exact ((hbeside.unwritten a hf).1).symm
  | some w =>
    rw [hbeside.written a ⟨w, hf⟩]
    rcases hvalid a w hf with hpr | hnet
    · rw [hread a hpr]
      exact ha.apply_eq
    · -- a covering net change decides the row by itself
      cases hdirty : tx.dirty.at? a with
      | none =>
        rw [hdirty] at hnet
        exact hnet.elim
      | some change =>
        rw [hdirty] at ha
        exact ha.apply_eq

/-! ## The serial order -/

namespace Contents

/-- A direct operation on the abstract store. -/
inductive ExecDirect (c : Contents α) : DirectOp α → Response α → Contents α → Prop where
  | get {id : EntityId} : ExecDirect c (.get model id) (.row (c (model, entityIdKey id))) c
  | getMany : ExecDirect c (.getMany model ids)
      (.rows (ids.map fun id => c (model, entityIdKey id))) c
  | create {id : EntityId} : c (model, entityIdKey id) = none →
      ExecDirect c (.create model id data) .done (c.write ((model, entityIdKey id), some data))
  | update {id : EntityId} : VersionOk (c (model, entityIdKey id)) expectedVersion →
      ExecDirect c (.update model id data expectedVersion) .done
        (c.write ((model, entityIdKey id), some data))
  | delete {id : EntityId} : (∀ version, expectedVersion = some version →
        VersionOk (c (model, entityIdKey id)) (some version)) →
      ExecDirect c (.delete model id expectedVersion) .done
        (c.write ((model, entityIdKey id), none))
  | seed {rows : List (EntityId × Row α)} : (rows.map fun r => entityIdKey r.1).Nodup →
      (∀ r ∈ rows, c (model, entityIdKey r.1) = none) →
      ExecDirect c (.seed model rows) .done
        (c.writes (rows.map fun r => ((model, entityIdKey r.1), some r.2)))
  | reset : ExecDirect c (.reset model) .done
      (fun a => if model.all (fun name => name == a.1) then none else c a)

end Contents

theorem MemoryStoreAdapter.run_execDirect {s s' : MemoryStoreAdapter α} {op : DirectOp α}
    {response : Response α} (h : s.run op = .ok (s', response)) :
    Contents.ExecDirect s.row? op response s'.row? := by
  have hrows := (run_wrote h).rows
  cases op with
  | get model id =>
    cases h
    exact .get
  | getMany model ids =>
    cases h
    exact .getMany
  | create model id data =>
    obtain ⟨_, hop, he⟩ := Except.map_eq_ok.mp h
    cases he
    rw [hrows]
    exact .create (create_ok hop).1
  | update model id data expectedVersion =>
    obtain ⟨_, hop, he⟩ := Except.map_eq_ok.mp h
    cases he
    rw [hrows]
    exact .update (update_ok hop).1
  | delete model id expectedVersion =>
    obtain ⟨_, hop, he⟩ := Except.map_eq_ok.mp h
    cases he
    rw [delete_rows hop]
    exact .delete (delete_ok hop).1
  | seed model rows =>
    obtain ⟨_, hop, he⟩ := Except.map_eq_ok.mp h
    cases he
    rw [hrows]
    exact .seed (seed_fresh hop).1 (seed_fresh hop).2
  | reset model =>
    obtain ⟨_, hop, he⟩ := Except.map_eq_ok.mp h
    cases he
    have hreset : s'.row? = fun a =>
        if model.all (fun name => name == a.1) then none else s.row? a := by
      funext a
      rw [hrows]
      have hiff : (model.all fun name => name == a.1) ↔ ∀ name, model = some name → name = a.1 := by
        cases model <;> simp
      rcases em (a ∈ s.resetRows model) with ha | ha
      · rw [if_pos (hiff.mpr (mem_resetRows.mp ha).1)]
        refine Contents.writes_of_mem _ ?_ (List.mem_map_of_mem (f := fun a => (a, none)) ha)
        rw [DirectOp.writes, List.map_map]
        exact (resetRows_nodup s model).map fun _ _ h => h
      · rw [Contents.writes_of_not_mem]
        · split
          · next hall =>
            rw [Option.eq_none_iff_forall_ne_some]
            exact fun row hrow => ha (mem_resetRows.mpr ⟨hiff.mp hall, row, hrow⟩)
          · rfl
        · rw [DirectOp.writes, List.map_map]
          exact fun hmem => ha (by simpa using hmem)
    rw [hreset]
    exact .reset

/-- A direct operation, or a whole transaction at once. -/
inductive SerialStep (α : Type) where
  | direct (op : DirectOp α) (response : Response α)
  | transaction (entries : List (TxEntry α))

inductive SerialStep.Exec (c : Contents α) : SerialStep α → Contents α → Prop where
  | direct : Contents.ExecDirect c op response c' → Exec c (.direct op response) c'
  | transaction : Steps Contents.Exec c entries c' → Exec c (.transaction entries) c'

/-- What an event adds to the serial order, after the events `past`: a direct operation that
returned, or all operations of the transaction that committed. -/
def Event.serial (past : List (Event α)) (e : Event α) : List (SerialStep α) :=
  match e.action, e.outcome with
  | .direct op, .ok response => [.direct op response]
  | .commit t, .ok _ => [.transaction (txEntries t past)]
  | _, _ => []

/-- The direct operations and the committed transactions, in the order in which they returned and
committed. -/
def serialOrder (es : List (Event α)) : List (SerialStep α) :=
  (es.foldl (fun (p : List (Event α) × List (SerialStep α)) e =>
    (p.1 ++ [e], p.2 ++ e.serial p.1)) ([], [])).2

theorem serialOrder_snoc (es : List (Event α)) (e : Event α) :
    serialOrder (es ++ [e]) = serialOrder es ++ e.serial es := by
  have hpast : ∀ (es past : List (Event α)) (out : List (SerialStep α)),
      (es.foldl (fun (p : List (Event α) × List (SerialStep α)) e =>
        (p.1 ++ [e], p.2 ++ e.serial p.1)) (past, out)).1 = past ++ es := by
    intro es
    induction es with
    | nil => simp
    | cons e es ih => simp [ih]
  rw [serialOrder, List.foldl_append, List.foldl_cons, List.foldl_nil, hpast, serialOrder,
    List.nil_append]

/-- Every commit of the history satisfies `P`, a condition on the transaction's operations and
its state at the commit. -/
def EachCommit (P : List (TxEntry α) → Tx α → Prop) (es : List (Event α)) : Prop :=
  ∀ past t response ws post, es = past ++ ⟨.commit t, .ok response, ws⟩ :: post →
    ∀ m tx, Machine.new.Run past m → m.txs[t]? = some tx → P (txEntries t past) tx

theorem EachCommit.left {P : List (TxEntry α) → Tx α → Prop} {es es' : List (Event α)}
    (h : EachCommit P (es ++ es')) : EachCommit P es := by
  intro past t response ws post he m tx hr htx
  refine h past t response ws (post ++ es') ?_ m tx hr htx
  rw [he, List.append_assoc, List.cons_append]

theorem EachCommit.nil {P : List (TxEntry α) → Tx α → Prop} : EachCommit P [] := by
  intro past t response ws post he
  simp at he

theorem EachCommit.snoc {P : List (TxEntry α) → Tx α → Prop} (es : List (Event α)) {e : Event α}
    (h : EachCommit P es)
    (hlast : ∀ t response, e.action = .commit t → e.outcome = .ok response →
      ∀ m tx, Machine.new.Run es m → m.txs[t]? = some tx → P (txEntries t es) tx) :
    EachCommit P (es ++ [e]) := by
  intro past t response ws post he m tx hr htx
  rcases List.eq_nil_or_concat post with rfl | ⟨post', e', rfl⟩
  · obtain ⟨rfl, hlast_eq⟩ := List.append_inj' he rfl
    cases hlast_eq
    exact hlast t response rfl rfl m tx hr htx
  · rw [List.concat_eq_append, ← List.cons_append, ← List.append_assoc] at he
    exact h past t response ws post' (List.append_inj' he rfl).1 m tx hr htx

/-- The state of the serial argument: the committed rows are those of the serial order, and every
transaction is known since its start. -/
structure Serialized (m : Machine α) (es : List (Event α)) : Prop where
  inv : m.Inv
  serial : Steps SerialStep.Exec (fun _ => none) (serialOrder es) m.store.row?
  future : ∀ t, m.txs.length ≤ t → txEntries t es = []
  ongoing : ∀ t tx, m.txs[t]? = some tx → ∃ s₀ readOnly past recent,
    es = past ++ recent ∧ txEntries t past = [] ∧ Ongoing t s₀ readOnly m recent tx

namespace Serialized

variable {m m' : Machine α} {es : List (Event α)} {e : Event α}

/-- A transaction that the step did not start goes on. -/
theorem ongoing_step (h : Serialized m es) (hs : m.Step e m') {t : TxId} {tx : Tx α}
    (hlt : t < m.txs.length) (htx : m'.txs[t]? = some tx) : ∃ s₀ readOnly past recent,
      es ++ [e] = past ++ recent ∧ txEntries t past = [] ∧
        Ongoing t s₀ readOnly m' recent tx := by
  obtain ⟨s₀, readOnly, past, recent, he, hpast, ho⟩ :=
    h.ongoing t _ (List.getElem?_eq_getElem hlt)
  obtain ⟨tx', ho'⟩ := ho.step h.inv hs
  obtain rfl : tx' = tx := Option.some.inj (ho'.get.symm.trans htx)
  exact ⟨s₀, readOnly, past, recent ++ [e], by rw [he, List.append_assoc], hpast, ho'⟩

/-- A step that starts no transaction and whose committed rows are known. -/
theorem advance (h : Serialized m es) (hs : m.Step e m') (hlen : m'.txs.length = m.txs.length)
    (hentries : ∀ t, m.txs.length ≤ t → txEntries t [e] = [])
    (hserial : Steps SerialStep.Exec m.store.row? (e.serial es) m'.store.row?) :
    Serialized m' (es ++ [e]) where
  inv := h.inv.step hs
  serial := serialOrder_snoc es e ▸ h.serial.trans hserial
  future t ht := by
    rw [hlen] at ht
    rw [txEntries_append, h.future t ht, hentries t ht, List.append_nil]
  ongoing t tx htx := by
    refine h.ongoing_step hs ?_ htx
    rw [← hlen]
    exact (List.getElem?_eq_some_iff.mp htx).1

theorem step (h : Serialized m es) (hs : m.Step e m')
    (hcommit : ∀ t response tx, e.action = .commit t → e.outcome = .ok response →
      m.txs[t]? = some tx →
      (∀ entry ∈ txEntries t es, entry.1.isPoint) ∧ Validated (txEntries t es) tx) :
    Serialized m' (es ++ [e]) := by
  have hrows := hs.rows.1
  cases hs.cases with
  | @failed action error =>
    refine h.advance hs rfl (fun t _ => ?_) ?_
    · cases action <;> rfl
    · cases action <;> exact .nil
  | direct hrun =>
    exact h.advance hs rfl (fun _ _ => rfl) (.single (.direct (MemoryStoreAdapter.run_execDirect hrun)))
  | @begin readOnly =>
    refine ⟨h.inv.step hs, ?_, fun t ht => ?_, fun t tx htx => ?_⟩
    · rw [serialOrder_snoc]
      exact h.serial.trans .nil
    · rw [List.length_append] at ht
      rw [txEntries_append, h.future t (Nat.le_of_succ_le ht)]
      rfl
    · rcases Nat.lt_or_ge t m.txs.length with hlt | hge
      · exact h.ongoing_step hs hlt htx
      · have hpast : txEntries t (es ++ [⟨.begin readOnly, .ok .done, []⟩]) = [] := by
          rw [txEntries_append, h.future t hge]
          rfl
        have hnew : [Tx.start m.store readOnly][t - m.txs.length]? = some tx :=
          (List.getElem?_append_right hge).symm.trans htx
        rw [List.getElem?_singleton, Option.ite_none_right_eq_some] at hnew
        obtain ⟨hzero, hstart⟩ := hnew
        obtain rfl := Option.some.inj hstart
        obtain rfl : t = m.txs.length := Nat.le_antisymm (Nat.le_of_sub_eq_zero hzero) hge
        exact ⟨m.store, readOnly, _, [], (List.append_nil _).symm, hpast, .start m readOnly⟩
  | @tx t tx op response tx' htx hopen hrun =>
    refine h.advance hs List.length_set (fun t' ht' => ?_) .nil
    have hlt : t < m.txs.length := (List.getElem?_eq_some_iff.mp htx).1
    simp [txEntries, Nat.ne_of_lt (Nat.lt_of_lt_of_le hlt ht')]
  | @commit t tx store htx hopen _ happly =>
    refine h.advance hs List.length_set (fun _ _ => rfl) ?_
    obtain ⟨s₀, readOnly, past, recent, rfl, hpast, ho⟩ := h.ongoing t tx htx
    obtain ⟨hpoint, hvalid⟩ := hcommit t .done tx rfl rfl htx
    have hentries : txEntries t (past ++ recent) = txEntries t recent := by
      rw [txEntries_append, hpast, List.nil_append]
    rw [hentries] at hpoint hvalid
    have hsettled : tx.settled = false := by
      by_contra hs
      exact h.inv.settled_closed tx (List.mem_of_getElem? htx) (by simpa using hs) hopen
    refine .single (.transaction ?_)
    rw [hrows, hentries]
    exact commit_replay (ho.run hopen) hpoint hvalid (ho.snapshot ▸ ho.watch hsettled)
      (MemoryStoreAdapter.applyDirty_ok happly)
  | commitFailed => exact h.advance hs List.length_set (fun _ _ => rfl) .nil
  | rollback =>
    refine h.advance hs List.length_set (fun _ _ => rfl) ?_
    rw [hrows]
    exact .nil

end Serialized

/-- Transactions of point operations, in any interleaving with each other and with direct
operations, are serialized by their commits: the committed transactions and the direct
operations, one after another in that order, give every recorded response and end in the
committed rows. Every row that a committed transaction wrote has to be validated. -/
theorem commits_serializable {m : Machine α} {es : List (Event α)} (h : Machine.new.Run es m)
    (hpoint : EachCommit (fun entries _ => ∀ e ∈ entries, e.1.isPoint) es)
    (hvalid : EachCommit Validated es) :
    Steps SerialStep.Exec (fun _ => none) (serialOrder es) m.store.row? := by
  suffices hs : Serialized m es from hs.serial
  induction h with
  | nil => exact ⟨.new, .nil, fun _ _ => rfl, fun _ _ h => nomatch h⟩
  | @snoc es m e m' hr hs ih =>
    refine (ih hpoint.left hvalid.left).step hs fun t response tx ha ho htx => ?_
    obtain ⟨action, outcome, ws⟩ := e
    simp only at ha ho
    subst ha ho
    exact ⟨hpoint es t response ws [] rfl m tx hr htx, hvalid es t response ws [] rfl m tx hr htx⟩

theorem commits_serializable_example :
    ∃ (m : Machine Nat) (es : List (Event Nat)),
      Machine.new.exec [.begin false, .tx 0 (.get "user" (.string "a")),
        .tx 0 (.create "user" (.string "a") ⟨some 1, 8⟩), .commit 0] = some (m, es) ∧
      Steps SerialStep.Exec (fun _ => none) (serialOrder es) m.store.row? := by
  obtain ⟨m₁, m, tx, hexec₁, htx, hreads, hexec⟩ : ∃ (m₁ m : Machine Nat) (tx : Tx Nat),
      Machine.new.exec [.begin false, .tx 0 (.get "user" (.string "a")),
        .tx 0 (.create "user" (.string "a") ⟨some 1, 8⟩)] = some (m₁, [⟨.begin false, .ok .done, []⟩,
          ⟨.tx 0 (.get "user" (.string "a")), .ok (.row none), []⟩,
          ⟨.tx 0 (.create "user" (.string "a") ⟨some 1, 8⟩), .ok .done, []⟩]) ∧
      m₁.txs[0]? = some tx ∧ tx.pointReads.contains ("user", entityIdKey (.string "a")) ∧
      Machine.new.exec [.begin false, .tx 0 (.get "user" (.string "a")),
        .tx 0 (.create "user" (.string "a") ⟨some 1, 8⟩), .commit 0] =
        some (m, [⟨.begin false, .ok .done, []⟩,
          ⟨.tx 0 (.get "user" (.string "a")), .ok (.row none), []⟩,
          ⟨.tx 0 (.create "user" (.string "a") ⟨some 1, 8⟩), .ok .done, []⟩,
          ⟨.commit 0, .ok .done, [(("user", entityIdKey (.string "a")), some ⟨some 1, 8⟩)]⟩]) :=
    ⟨_, _, _, rfl, rfl, rfl, rfl⟩
  have hcommit : ∀ P : List (TxEntry Nat) → Tx Nat → Prop,
      P [(.get "user" (.string "a"), .row none),
        (.create "user" (.string "a") ⟨some 1, 8⟩, .done)] tx →
      EachCommit P ([⟨.begin false, .ok .done, []⟩,
        ⟨.tx 0 (.get "user" (.string "a")), .ok (.row none), []⟩,
        ⟨.tx 0 (.create "user" (.string "a") ⟨some 1, 8⟩), .ok .done, []⟩,
        ⟨.commit 0, .ok .done, [(("user", entityIdKey (.string "a")), some ⟨some 1, 8⟩)]⟩] :
          List (Event Nat)) := by
    intro P hP
    refine .snoc [_, _, _] (.snoc [_, _] (.snoc [_] (.snoc [] .nil ?_) ?_) ?_) ?_
    · exact fun _ _ ha => nomatch ha
    · exact fun _ _ ha => nomatch ha
    · exact fun _ _ ha => nomatch ha
    · intro t response ha _ m' tx' hr htx'
      cases ha
      obtain rfl := hr.det (.of_exec hexec₁)
      obtain rfl := Option.some.inj (htx.symm.trans htx')
      exact hP
  refine ⟨m, _, hexec, commits_serializable (.of_exec hexec) (hcommit _ ?_) (hcommit _ ?_)⟩
  · decide
  · intro a w hw
    refine .inl ?_
    have ha : ("user", entityIdKey (.string "a")) = a := by
      by_contra hne
      simp [firstWrite, TxOp.target, hne] at hw
    exact ha ▸ hreads

/-- Without the condition a committed delete can be lost: a transaction deletes a row that its
snapshot does not have, a direct write creates the row, and the transaction commits. -/
theorem not_commits_serializable :
    ¬ ∀ (m : Machine Nat) (es : List (Event Nat)), Machine.new.Run es m →
        EachCommit (fun entries _ => ∀ e ∈ entries, e.1.isPoint) es →
        Steps SerialStep.Exec (fun _ => none) (serialOrder es) m.store.row? := by
  intro hclaim
  obtain ⟨m, hexec, hrow⟩ : ∃ m : Machine Nat,
      Machine.new.exec [.begin false, .tx 0 (.delete "user" (.string "a") none),
        .direct (.create "user" (.string "a") ⟨some 1, 7⟩), .commit 0] =
        some (m, [⟨.begin false, .ok .done, []⟩,
          ⟨.tx 0 (.delete "user" (.string "a") none), .ok .done, []⟩,
          ⟨.direct (.create "user" (.string "a") ⟨some 1, 7⟩), .ok .done,
            [(("user", entityIdKey (.string "a")), some ⟨some 1, 7⟩)]⟩,
          ⟨.commit 0, .ok .done, []⟩]) ∧
      m.store.row? ("user", entityIdKey (.string "a")) = some ⟨some 1, 7⟩ := ⟨_, rfl, rfl⟩
  have hpoint : EachCommit (fun entries _ => ∀ e ∈ entries, e.1.isPoint)
      ([⟨.begin false, .ok .done, []⟩,
          ⟨.tx 0 (.delete "user" (.string "a") none), .ok .done, []⟩,
          ⟨.direct (.create "user" (.string "a") ⟨some 1, 7⟩), .ok .done,
            [(("user", entityIdKey (.string "a")), some ⟨some 1, 7⟩)]⟩,
          ⟨.commit 0, .ok .done, []⟩] : List (Event Nat)) := by
    refine .snoc [_, _, _] (.snoc [_, _] (.snoc [_] (.snoc [] .nil ?_) ?_) ?_) ?_
    · exact fun _ _ ha => nomatch ha
    · exact fun _ _ ha => nomatch ha
    · exact fun _ _ ha => nomatch ha
    · intro t response ha _ m tx _ _ e he
      cases ha
      have : e = (.delete "user" (.string "a") none, .done) := by simpa [txEntries] using he
      rw [this]
      rfl
  have hserial := hclaim m _ (.of_exec hexec) hpoint
  have horder : Steps SerialStep.Exec (fun _ => none)
      ([.direct (.create "user" (.string "a") ⟨some 1, 7⟩) .done] ++
        [.transaction [(.delete "user" (.string "a") none, .done)]]) m.store.row? := hserial
  obtain ⟨c, _, hlast⟩ := horder.snoc_inv
  cases hlast with
  | transaction hentries =>
    have hdelete := hentries.single_inv
    generalize hd : m.store.row? = d at hdelete
    cases hdelete with
    | @write a _ ha _ =>
      cases ha
      rw [hd] at hrow
      simp [Contents.write, TxOp.value] at hrow

end ActiveTs.MemoryStore
