import ActiveTs.MemoryStore.Snapshots

/-! # Point reads are validated

A transaction that commits has seen, for every row it read by key outside a rolled-back
savepoint, the row that is still committed. The argument needs two invariants: the running
snapshots are counted exactly (`Machine.Inv`), and every row written since a running snapshot
was taken has a revision above it (`Watch`). -/

namespace ActiveTs.MemoryStore

variable {α : Type}

/-! ## The counted snapshots -/

/-- The transaction still holds its snapshot, taken at generation `n`. -/
def Tx.runsAt (n : Nat) (tx : Tx α) : Bool := !tx.settled && tx.revisionSnapshot == n

/-- Releasing a snapshot takes one off its count. -/
theorem MemoryStoreAdapter.releaseSnapshot_get? {snapshots : JsMap Nat Nat} {count : Nat → Nat}
    (h : ∀ n, snapshots.get? n = if count n = 0 then none else some (count n)) {k : Nat}
    (hk : 0 < count k) (n : Nat) :
    (releaseSnapshot snapshots k).get? n =
      if (count n - if k = n then 1 else 0) = 0 then none
      else some (count n - if k = n then 1 else 0) := by
  have hget : snapshots.get? k = some (count k) := by rw [h, if_neg (by omega)]
  unfold releaseSnapshot
  rcases eq_or_ne k n with rfl | hn
  · obtain ⟨c, hc⟩ := Nat.exists_eq_add_of_le hk
    cases c with
    | zero => simp [hget, hc]
    | succ c =>
      have hc' : count k = c + 2 := by omega
      simp [hget, hc']
  · simp only [hn, if_false, Nat.sub_zero]
    rw [← h]
    split
    · exact JsMap.get?_delete_of_ne _ hn
    · exact JsMap.get?_set_of_ne _ _ hn
    · rfl

namespace Machine

/-- Revisions and snapshots are bounded by the generation, and the store counts exactly the
transactions that hold a snapshot. -/
structure Inv (m : Machine α) : Prop where
  revision_le : ∀ a r, m.store.rowRevisions.at? a = some r → r ≤ m.store.rowRevisionGeneration
  snapshot_le : ∀ tx ∈ m.txs, tx.revisionSnapshot ≤ m.store.rowRevisionGeneration
  settled_closed : ∀ tx ∈ m.txs, tx.settled → tx.closed ≠ none
  counted : ∀ n, (m.store.activeTransactionSnapshots.get? n) =
    if m.txs.countP (Tx.runsAt n) = 0 then none else some (m.txs.countP (Tx.runsAt n))

theorem Inv.new : Inv (Machine.new : Machine α) where
  revision_le _ _ h := nomatch h
  snapshot_le _ h := nomatch h
  settled_closed _ h := nomatch h
  counted _ := rfl

variable {m : Machine α}

theorem Inv.isSnapshot_iff (h : m.Inv) {n : Nat} :
    m.store.IsSnapshot n ↔ ∃ tx ∈ m.txs, tx.runsAt n := by
  rw [MemoryStoreAdapter.IsSnapshot, h.counted, ← List.countP_pos_iff]
  split
  · next hz => simp [hz]
  · next hz => exact ⟨fun _ => Nat.pos_of_ne_zero hz, fun _ => ⟨_, rfl⟩⟩

theorem Inv.isSnapshot (h : m.Inv) {t : TxId} {tx : Tx α} (htx : m.txs[t]? = some tx)
    (hrun : tx.settled = false) : m.store.IsSnapshot tx.revisionSnapshot :=
  h.isSnapshot_iff.mpr ⟨tx, List.mem_of_getElem? htx, by simp [Tx.runsAt, hrun]⟩

/-- Writes keep the invariant. -/
theorem Inv.wrote (h : m.Inv) {store : MemoryStoreAdapter α} {ws : List (RowWrite α)}
    (hw : m.store.Wrote m.store.rowRevisionGeneration store ws) : Inv ⟨store, m.txs⟩ where
  revision_le a r hr := by
    rcases hw.revision a r hr with hr | ⟨_, hle⟩
    · exact Nat.le_trans (h.revision_le a r hr) hw.generation_le
    · exact hle
  snapshot_le tx htx := Nat.le_trans (h.snapshot_le tx htx) hw.generation_le
  settled_closed := h.settled_closed
  counted n := by
    simp only [hw.snapshots]
    exact h.counted n

/-- A transaction may change as long as it keeps its snapshot. -/
theorem Inv.setTx (h : m.Inv) {t : TxId} {tx tx' : Tx α} (htx : m.txs[t]? = some tx)
    (hsnap : tx'.revisionSnapshot = tx.revisionSnapshot) (hset : tx'.settled = tx.settled)
    (hclosed : tx'.settled → tx'.closed ≠ none) : Inv ⟨m.store, m.txs.set t tx'⟩ where
  revision_le := h.revision_le
  snapshot_le tx₁ h₁ := by
    rcases List.mem_or_eq_of_mem_set h₁ with h₁ | rfl
    · exact h.snapshot_le tx₁ h₁
    · rw [hsnap]
      exact h.snapshot_le tx (List.mem_of_getElem? htx)
  settled_closed tx₁ h₁ hs := by
    rcases List.mem_or_eq_of_mem_set h₁ with h₁ | rfl
    · exact h.settled_closed tx₁ h₁ hs
    · exact hclosed hs
  counted n := by
    obtain ⟨hlt, hget⟩ := List.getElem?_eq_some_iff.mp htx
    have hruns : tx'.runsAt n = tx.runsAt n := by rw [Tx.runsAt, hsnap, hset, Tx.runsAt]
    have hcount : (m.txs.set t tx').countP (Tx.runsAt n) = m.txs.countP (Tx.runsAt n) := by
      have hpos : tx.runsAt n → 0 < m.txs.countP (Tx.runsAt n) := fun hr =>
        List.countP_pos_iff.mpr ⟨tx, List.mem_of_getElem? htx, hr⟩
      rw [List.countP_set hlt, hget, hruns]
      split
      · next hr =>
        have := hpos hr
        omega
      · omega
    simp only [hcount]
    exact h.counted n

theorem Inv.begin (h : m.Inv) (readOnly : Bool) :
    Inv ⟨m.store.beginTransactionSnapshot.2, m.txs ++ [Tx.start m.store readOnly]⟩ where
  revision_le := h.revision_le
  snapshot_le tx htx := by
    rcases List.mem_append.mp htx with htx | htx
    · exact h.snapshot_le tx htx
    · rw [List.mem_singleton.mp htx]
      exact Nat.le_refl _
  settled_closed tx htx hs := by
    rcases List.mem_append.mp htx with htx | htx
    · exact h.settled_closed tx htx hs
    · rw [List.mem_singleton.mp htx] at hs
      cases hs
  counted n := by
    simp only [MemoryStoreAdapter.beginTransactionSnapshot, JsMap.get?_set, List.countP_append,
      h.counted]
    rcases eq_or_ne m.store.rowRevisionGeneration n with rfl | hn
    · have : [Tx.start m.store readOnly].countP (Tx.runsAt m.store.rowRevisionGeneration) = 1 := by
        simp [Tx.runsAt, Tx.start]
      rw [this, if_pos rfl, if_neg (Nat.succ_ne_zero _)]
      split <;> simp_all
    · have : [Tx.start m.store readOnly].countP (Tx.runsAt n) = 0 := by
        simp [Tx.runsAt, Tx.start, hn]
      rw [this, if_neg hn, Nat.add_zero]

/-- Releasing a held snapshot keeps the invariant. -/
theorem Inv.release (h : m.Inv) (closed : String) {t : TxId} {tx : Tx α}
    (htx : m.txs[t]? = some tx) (hrun : tx.settled = false) :
    Inv ⟨m.store.releaseTransactionSnapshot tx.revisionSnapshot,
      m.txs.set t { tx with closed := some closed, settled := true }⟩ := by
  have hc := MemoryStoreAdapter.compact_compacted { m.store with
    activeTransactionSnapshots := MemoryStoreAdapter.releaseSnapshot
      m.store.activeTransactionSnapshots tx.revisionSnapshot }
  refine ⟨fun a r hr => ?_, fun tx₁ h₁ => ?_, fun tx₁ h₁ hs => ?_, fun n => ?_⟩
  · exact Nat.le_trans (h.revision_le a r (hc.revision_of hr)) (Nat.le_of_eq hc.generation.symm)
  · refine Nat.le_trans ?_ (Nat.le_of_eq hc.generation.symm)
    rcases List.mem_or_eq_of_mem_set h₁ with h₁ | rfl
    · exact h.snapshot_le tx₁ h₁
    · exact h.snapshot_le tx (List.mem_of_getElem? htx)
  · rcases List.mem_or_eq_of_mem_set h₁ with h₁ | rfl
    · exact h.settled_closed tx₁ h₁ hs
    · exact Option.some_ne_none _
  · obtain ⟨hlt, hget⟩ := List.getElem?_eq_some_iff.mp htx
    have hset : (m.txs.set t { tx with closed := some closed, settled := true }).countP
        (Tx.runsAt n) = m.txs.countP (Tx.runsAt n) - if tx.runsAt n then 1 else 0 := by
      rw [List.countP_set hlt, hget]
      simp [Tx.runsAt]
    have hpos : 0 < m.txs.countP (Tx.runsAt tx.revisionSnapshot) :=
      List.countP_pos_iff.mpr ⟨tx, List.mem_of_getElem? htx, by simp [Tx.runsAt, hrun]⟩
    have hruns : (if tx.runsAt n then 1 else 0) = if tx.revisionSnapshot = n then 1 else 0 := by
      simp [Tx.runsAt, hrun]
    simp only [MemoryStoreAdapter.releaseTransactionSnapshot, hc.snapshots, hset, hruns]
    exact MemoryStoreAdapter.releaseSnapshot_get? h.counted hpos n

theorem Inv.step {m' : Machine α} {e : Event α} (h : m.Inv) (hs : m.Step e m') : m'.Inv := by
  cases hs.cases with
  | failed => exact h
  | direct hrun => exact h.wrote (MemoryStoreAdapter.run_wrote hrun)
  | begin => exact h.begin _
  | tx htx hopen hrun =>
    obtain ⟨hsnap, hset, hclosed⟩ := (Tx.run_cases hrun).frame
    refine h.setTx htx hsnap hset fun hs => ?_
    rw [hset] at hs
    exact absurd hopen (h.settled_closed _ (List.mem_of_getElem? htx) hs)
  | commit htx hopen _ hcommit =>
    have hw := (MemoryStoreAdapter.applyDirty_ok hcommit).wrote
    refine (h.wrote hw).release "commit" htx ?_
    by_contra hs
    exact h.settled_closed _ (List.mem_of_getElem? htx) (by simpa using hs) hopen
  | commitFailed htx => exact h.setTx htx rfl rfl fun _ => Option.some_ne_none _
  | rollback htx hrun => exact h.release _ htx hrun

theorem Inv.run {m' : Machine α} {es : List (Event α)} (h : m.Inv) (hr : m.Run es m') : m'.Inv :=
  hr.invariant (fun h hs => h.step hs) h

end Machine

/-! ## Rows written since a snapshot -/

/-- Since a snapshot at generation `n` with contents `c₀`: a row is as it was, and no event
wrote it, or its revision is above the snapshot. -/
def Watch (n : Nat) (c₀ : Contents α) (es : List (Event α)) (s : MemoryStoreAdapter α) : Prop :=
  ∀ a, ((∀ e ∈ es, a ∉ e.writes.map Prod.fst) ∧ s.row? a = c₀ a) ∨
    ∃ r, s.rowRevisions.at? a = some r ∧ n < r

namespace Watch

variable {n : Nat} {c₀ : Contents α} {es : List (Event α)} {s s' : MemoryStoreAdapter α}

theorem start (s : MemoryStoreAdapter α) : Watch n s.row? [] s :=
  fun _ => .inl ⟨fun _ h => (nomatch h), rfl⟩

theorem wrote (h : Watch n c₀ es s) (hsnap : s.IsSnapshot n) (hn : n ≤ s.rowRevisionGeneration)
    {e : Event α} (hw : s.Wrote s.rowRevisionGeneration s' e.writes) :
    Watch n c₀ (es ++ [e]) s' := by
  intro a
  rcases em (a ∈ e.writes.map Prod.fst) with ha | ha
  · obtain ⟨r, hr, hlt⟩ := hw.recorded a ha n hsnap hn
    exact .inr ⟨r, hr, by omega⟩
  · rcases h a with ⟨hes, hrow⟩ | ⟨r, hr, hlt⟩
    · refine .inl ⟨fun e' he' => ?_, ?_⟩
      · rcases List.mem_append.mp he' with he' | he'
        · exact hes e' he'
        · rwa [List.mem_singleton.mp he']
      · rw [hw.rows, Contents.writes_of_not_mem _ ha, hrow]
    · exact .inr ⟨r, (hw.untouched a ha).trans hr, hlt⟩

/-- An event that writes nothing. -/
theorem quiet (h : Watch n c₀ es s) {e : Event α} (he : e.writes = [])
    (hrows : s'.row? = s.row?) (hrev : s'.rowRevisions = s.rowRevisions) :
    Watch n c₀ (es ++ [e]) s' := by
  intro a
  rcases h a with ⟨hes, hrow⟩ | ⟨r, hr, hlt⟩
  · refine .inl ⟨fun e' he' => ?_, hrows ▸ hrow⟩
    rcases List.mem_append.mp he' with he' | he'
    · exact hes e' he'
    · rw [List.mem_singleton.mp he', he]
      exact List.not_mem_nil
  · exact .inr ⟨r, hrev ▸ hr, hlt⟩

theorem release (h : Watch n c₀ es s) {k : Nat}
    (hsnap : (s.releaseTransactionSnapshot k).IsSnapshot n) :
    Watch n c₀ es (s.releaseTransactionSnapshot k) := by
  have hc := MemoryStoreAdapter.compact_compacted { s with
    activeTransactionSnapshots := MemoryStoreAdapter.releaseSnapshot
      s.activeTransactionSnapshots k }
  have hsnap := hc.isSnapshot_iff.mp hsnap
  intro a
  rcases h a with ⟨hes, hrow⟩ | ⟨r, hr, hlt⟩
  · exact .inl ⟨hes, (congrFun hc.row?_eq a).trans hrow⟩
  · exact .inr ⟨r, hc.keeps hr hsnap hlt, hlt⟩

end Watch

/-! ## One transaction in a run -/

/-- The successful operations of transaction `t`, in order. -/
def txEntries (t : TxId) (es : List (Event α)) : List (TxEntry α) :=
  es.filterMap fun e =>
    match e.action, e.outcome with
    | .tx t' op, .ok response => if t' = t then some (op, response) else none
    | _, _ => none

theorem txEntries_append (t : TxId) (es es' : List (Event α)) :
    txEntries t (es ++ es') = txEntries t es ++ txEntries t es' := List.filterMap_append

/-- Transaction `t` since it was started on the store `s₀`: while it takes operations it is the
result of its own operations alone, and while it holds its snapshot the writes of everybody
are watched. -/
structure Ongoing (t : TxId) (s₀ : MemoryStoreAdapter α) (readOnly : Bool) (m : Machine α)
    (es : List (Event α)) (tx : Tx α) : Prop where
  get : m.txs[t]? = some tx
  snapshot : tx.revisionSnapshot = s₀.rowRevisionGeneration
  run : tx.closed = none → Tx.Run (Tx.start s₀ readOnly) (txEntries t es) tx
  watch : tx.settled = false → Watch s₀.rowRevisionGeneration s₀.row? es m.store

namespace Ongoing

variable {t : TxId} {s₀ : MemoryStoreAdapter α} {readOnly : Bool} {m m' : Machine α}
  {es : List (Event α)} {tx : Tx α}

/-- The step of another transaction that leaves the committed rows alone. -/
theorem other (h : Ongoing t s₀ readOnly m es tx) {e : Event α}
    (hget : m'.txs[t]? = some tx) (hentries : txEntries t [e] = [])
    (hwatch : tx.settled = false → Watch s₀.rowRevisionGeneration s₀.row? (es ++ [e]) m'.store) :
    Ongoing t s₀ readOnly m' (es ++ [e]) tx where
  get := hget
  snapshot := h.snapshot
  run hopen := by
    rw [txEntries_append, hentries, List.append_nil]
    exact h.run hopen
  watch := hwatch

theorem step (h : Ongoing t s₀ readOnly m es tx) (hm : m.Inv) {e : Event α}
    (hs : m.Step e m') : ∃ tx', Ongoing t s₀ readOnly m' (es ++ [e]) tx' := by
  have hm' := hm.step hs
  have hsnap : tx.settled = false → m.store.IsSnapshot s₀.rowRevisionGeneration :=
    fun hr => h.snapshot ▸ hm.isSnapshot h.get hr
  have hle : s₀.rowRevisionGeneration ≤ m.store.rowRevisionGeneration :=
    h.snapshot ▸ hm.snapshot_le tx (List.mem_of_getElem? h.get)
  have hlt : t < m.txs.length := (List.getElem?_eq_some_iff.mp h.get).1
  cases hs.cases with
  | @failed action error =>
    refine ⟨tx, h.other h.get ?_ fun hr => (h.watch hr).quiet rfl rfl rfl⟩
    cases action <;> rfl
  | direct hrun =>
    exact ⟨tx, h.other h.get rfl fun hr =>
      (h.watch hr).wrote (hsnap hr) hle (MemoryStoreAdapter.run_wrote hrun)⟩
  | begin =>
    refine ⟨tx, h.other ?_ rfl fun hr => (h.watch hr).quiet rfl rfl rfl⟩
    exact (List.getElem?_append_left hlt).trans h.get
  | @tx t' tx₁ op response tx₁' htx hopen hrun =>
    rcases eq_or_ne t' t with rfl | hne
    · obtain rfl : tx₁ = tx := Option.some.inj (htx.symm.trans h.get)
      obtain ⟨hsnap', hset, hclosed⟩ := (Tx.run_cases hrun).frame
      have hentry : txEntries t' [⟨.tx t' op, .ok response, []⟩] = [(op, response)] := by
        simp [txEntries]
      refine ⟨tx₁', ?_, hsnap'.trans h.snapshot, fun _ => ?_, fun hr => ?_⟩
      · exact List.getElem?_set_self hlt
      · rw [txEntries_append, hentry]
        exact .snoc (h.run hopen) hrun
      · exact (h.watch (hset ▸ hr)).quiet rfl rfl rfl
    · refine ⟨tx, h.other ?_ (by simp [txEntries, hne]) fun hr =>
        (h.watch hr).quiet rfl rfl rfl⟩
      exact (List.getElem?_set_ne hne).trans h.get
  | @commit t' tx₁ store htx hopen _ hcommit =>
    rcases eq_or_ne t' t with rfl | hne
    · obtain rfl : tx₁ = tx := Option.some.inj (htx.symm.trans h.get)
      exact ⟨{ tx₁ with closed := some "commit", settled := true }, List.getElem?_set_self hlt,
        h.snapshot, fun hc => (nomatch hc), fun hr => (nomatch hr)⟩
    · have hget := (List.getElem?_set_ne (a := { tx₁ with
        closed := some "commit", settled := true }) hne).trans h.get
      refine ⟨tx, h.other hget rfl fun hr => ?_⟩
      have hw := (MemoryStoreAdapter.applyDirty_ok hcommit).wrote
      have hwatch := (h.watch hr).wrote (e := ⟨.commit t', .ok .done, _⟩) (hsnap hr) hle hw
      exact hwatch.release (h.snapshot ▸ hm'.isSnapshot hget hr)
  | @commitFailed t' tx₁ error htx hopen =>
    rcases eq_or_ne t' t with rfl | hne
    · obtain rfl : tx₁ = tx := Option.some.inj (htx.symm.trans h.get)
      exact ⟨{ tx₁ with closed := some "rollback" }, List.getElem?_set_self hlt,
        h.snapshot, fun hc => (nomatch hc), fun hr => (h.watch hr).quiet rfl rfl rfl⟩
    · exact ⟨tx, h.other ((List.getElem?_set_ne hne).trans h.get) rfl fun hr =>
        (h.watch hr).quiet rfl rfl rfl⟩
  | @rollback t' tx₁ htx hrun =>
    rcases eq_or_ne t' t with rfl | hne
    · obtain rfl : tx₁ = tx := Option.some.inj (htx.symm.trans h.get)
      exact ⟨{ tx₁ with closed := some "rollback", settled := true },
        List.getElem?_set_self hlt, h.snapshot, fun hc => (nomatch hc), fun hr => (nomatch hr)⟩
    · have hget := (List.getElem?_set_ne (a := { tx₁ with
        closed := some "rollback", settled := true }) hne).trans h.get
      refine ⟨tx, h.other hget rfl fun hr => ?_⟩
      have hquiet : Watch _ _ (es ++ [⟨.rollback t', .ok .done, []⟩]) m.store :=
        (h.watch hr).quiet rfl rfl rfl
      exact hquiet.release (h.snapshot ▸ hm'.isSnapshot hget hr)

/-- A transaction at its start. -/
theorem start (m : Machine α) (readOnly : Bool) :
    Ongoing m.txs.length m.store readOnly
      ⟨m.store.beginTransactionSnapshot.2, m.txs ++ [Tx.start m.store readOnly]⟩ []
      (Tx.start m.store readOnly) where
  get := by simp
  snapshot := rfl
  run _ := .nil
  watch _ := Watch.start m.store

/-- A transaction from its start on. -/
theorem of_run {m₀ m₁ : Machine α} (hm : m₀.Inv)
    (hbegin : m₀.step (.begin readOnly) = some (m₁, .ok .done)) (hr : m₁.Run es m) :
    ∃ tx, Ongoing m₀.txs.length m₀.store readOnly m es tx := by
  have hinv : m.Inv ∧ ∃ tx, Ongoing m₀.txs.length m₀.store readOnly m es tx := by
    refine hr.history (P := fun m es => m.Inv ∧
      ∃ tx, Ongoing m₀.txs.length m₀.store readOnly m es tx) ?_ ?_
    · intro m es e m' ⟨hm, tx, h⟩ hs
      exact ⟨hm.step hs, h.step hm hs⟩
    · cases hbegin
      exact ⟨hm.begin readOnly, _, .start m₀ readOnly⟩
  exact hinv.2

end Ongoing

/-! ## The point reads of a transaction -/

/-- The rows read by key so far, and what was read when each running savepoint began. -/
def readFrames (frames : List RowKey × List (List RowKey)) (entry : TxEntry α) :
    List RowKey × List (List RowKey) :=
  let (live, saved) := frames
  match entry.1 with
  | .get model id => ((model, entityIdKey id) :: live, saved)
  | .getMany model ids => (ids.map (fun id => (model, entityIdKey id)) ++ live, saved)
  | .savepoint => (live, live :: saved)
  | .savepointReturn => (live, saved.tail)
  | .savepointThrow =>
    match saved with
    | [] => (live, [])
    | before :: rest => (before, rest)
  | _ => (live, saved)

/-- The rows that a transaction read by key outside its rolled-back savepoints. -/
def liveReads (entries : List (TxEntry α)) : List RowKey :=
  (entries.foldl readFrames ([], [])).1

/-- The recorded point reads are the live ones, also in the checkpoints. -/
structure ReadsMatch (tx : Tx α) (frames : List RowKey × List (List RowKey)) : Prop where
  live : ∀ a, tx.pointReads.contains a ↔ a ∈ frames.1
  saved : List.Forall₂ (fun c reads => ∀ a, c.pointReads.contains a ↔ a ∈ reads)
    tx.checkpoints frames.2

theorem contains_recordPointRead {pointReads : PointReadSet} {a b : RowKey} :
    (recordPointRead pointReads a).contains b ↔ b = a ∨ pointReads.contains b := by
  rw [recordPointRead, JsTable.contains, JsTable.at?_put, JsTable.contains]
  rcases eq_or_ne a b with rfl | hab
  · simp
  · simp [hab, Ne.symm hab]

theorem contains_recordPointReads {pointReads : PointReadSet} {model : String}
    {ids : List EntityId} {b : RowKey} :
    (ids.foldl (fun reads id => recordPointRead reads (model, entityIdKey id))
      pointReads).contains b ↔
      b ∈ ids.map (fun id => (model, entityIdKey id)) ∨ pointReads.contains b := by
  induction ids generalizing pointReads with
  | nil => simp
  | cons id ids ih =>
    rw [List.foldl_cons, ih, contains_recordPointRead, List.map_cons, List.mem_cons]
    tauto

theorem ReadsMatch.step {tx tx' : Tx α} {entry : TxEntry α}
    {frames : List RowKey × List (List RowKey)} (h : ReadsMatch tx frames)
    (hrun : tx.run entry.1 = .ok (tx', entry.2)) : ReadsMatch tx' (readFrames frames entry) := by
  obtain ⟨op, response⟩ := entry
  obtain ⟨live, saved⟩ := frames
  obtain ⟨hlive, hsaved⟩ := h
  cases Tx.run_cases hrun with
  | get => exact ⟨fun a => by simp [readFrames, contains_recordPointRead, hlive], hsaved⟩
  | getMany =>
    refine ⟨fun a => ?_, hsaved⟩
    rw [contains_recordPointReads, hlive]
    exact List.mem_append.symm
  | create => exact ⟨hlive, hsaved⟩
  | update => exact ⟨hlive, hsaved⟩
  | delete => exact ⟨hlive, hsaved⟩
  | savepoint => exact ⟨hlive, .cons hlive hsaved⟩
  | savepointReturn =>
    refine ⟨hlive, ?_⟩
    simp only [Tx.savepointReturn, readFrames]
    generalize tx.checkpoints = checkpoints at hsaved ⊢
    cases hsaved with
    | nil => exact .nil
    | cons _ hrest => exact hrest
  | savepointThrow =>
    generalize hcs : tx.checkpoints = checkpoints at hsaved
    cases hsaved with
    | nil =>
      simp only [Tx.savepointThrow, hcs, readFrames]
      exact ⟨hlive, hcs ▸ .nil⟩
    | cons hc hrest =>
      simp only [Tx.savepointThrow, hcs, readFrames]
      exact ⟨hc, hrest⟩

theorem ReadsMatch.of_run {s : MemoryStoreAdapter α} {readOnly : Bool} {tx : Tx α}
    {entries : List (TxEntry α)} (h : Tx.Run (Tx.start s readOnly) entries tx) :
    ReadsMatch tx (entries.foldl readFrames ([], [])) := by
  refine h.history (P := fun tx entries =>
    ReadsMatch tx (entries.foldl readFrames ([], []))) ?_ ⟨fun a => ?_, .nil⟩
  · intro tx entries entry tx' h hrun
    rw [List.foldl_append]
    exact h.step hrun
  · simp [Tx.start, JsTable.contains]

/-! ## The commit -/

/-- When a transaction commits, nobody wrote a row that it read by key outside a rolled-back
savepoint between its snapshot and its commit. -/
theorem commit_point_reads_unchanged {m₀ m₁ m₂ m₃ : Machine α} {before during : List (Event α)}
    {readOnly : Bool} (hbefore : Machine.new.Run before m₀)
    (hbegin : m₀.step (.begin readOnly) = some (m₁, .ok .done))
    (hduring : m₁.Run during m₂)
    (hcommit : m₂.step (.commit m₀.txs.length) = some (m₃, .ok .done)) :
    ∀ a ∈ liveReads (txEntries m₀.txs.length during), ∀ e ∈ during,
      a ∉ e.writes.map Prod.fst := by
  intro a ha e he
  have hm₀ : m₀.Inv := Machine.Inv.new.run hbefore
  have hm₁ : m₁.Inv := by
    cases hbegin
    exact hm₀.begin readOnly
  have hm₂ : m₂.Inv := hm₁.run hduring
  obtain ⟨tx, h⟩ := Ongoing.of_run hm₀ hbegin hduring
  obtain ⟨tx', store, htx, hopen, _, happly, _⟩ := Machine.commit_ok hcommit
  obtain rfl : tx' = tx := Option.some.inj (htx.symm.trans h.get)
  have hrun : tx'.settled = false := by
    by_contra hs
    exact hm₂.settled_closed tx' (List.mem_of_getElem? htx) (by simpa using hs) hopen
  have hread : tx'.pointReads.contains a := ((ReadsMatch.of_run (h.run hopen)).live a).mpr ha
  rcases h.watch hrun a with ⟨hes, _⟩ | ⟨r, hr, hlt⟩
  · exact hes e he
  · have hle := (MemoryStoreAdapter.applyDirty_ok happly).reads a hread r hr
    rw [h.snapshot] at hle
    omega

theorem commit_point_reads_unchanged_example :
    ∃ (m₁ m₂ m₃ : Machine Nat) (during : List (Event Nat)),
      Machine.new.step (.begin false) = some (m₁, .ok .done) ∧
      m₁.exec [.tx 0 (.get "user" (.string "a")),
        .direct (.create "user" (.string "b") ⟨some 1, 7⟩)] = some (m₂, during) ∧
      m₂.step (.commit 0) = some (m₃, .ok .done) ∧
      ∀ a ∈ liveReads (txEntries 0 during), ∀ e ∈ during, a ∉ e.writes.map Prod.fst := by
  obtain ⟨m₁, m₂, m₃, during, hbegin, hduring, hcommit⟩ :
      ∃ (m₁ m₂ m₃ : Machine Nat) (during : List (Event Nat)),
        Machine.new.step (.begin false) = some (m₁, .ok .done) ∧
        m₁.exec [.tx 0 (.get "user" (.string "a")),
          .direct (.create "user" (.string "b") ⟨some 1, 7⟩)] = some (m₂, during) ∧
        m₂.step (.commit 0) = some (m₃, .ok .done) := ⟨_, _, _, _, rfl, rfl, rfl⟩
  exact ⟨m₁, m₂, m₃, during, hbegin, hduring, hcommit,
    commit_point_reads_unchanged .nil hbegin (.of_exec hduring) hcommit⟩
end ActiveTs.MemoryStore
