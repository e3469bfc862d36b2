import ActiveTs.MemoryStore.Collapse

/-! # Replaying a transaction on other contents

The abstract store is just a function from addresses to rows. A transaction that ran on the
rows of its snapshot runs with the same responses on other rows that agree where it read, and
that pass the check of its first write to each row. -/

namespace ActiveTs.MemoryStore

variable {α : Type}

/-! ## The abstract store -/

namespace TxOp

/-- The rows that an operation reads by key. -/
def reads : TxOp α → List RowKey
  | .get model id => [(model, entityIdKey id)]
  | .getMany model ids => ids.map fun id => (model, entityIdKey id)
  | _ => []

/-- The row that an operation writes. -/
def target : TxOp α → Option RowKey
  | .create model id _ => some (model, entityIdKey id)
  | .update model id _ _ => some (model, entityIdKey id)
  | .delete model id _ => some (model, entityIdKey id)
  | _ => none

/-- A read or write of single rows. -/
def isPoint : TxOp α → Bool
  | .savepoint | .savepointReturn | .savepointThrow => false
  | _ => true

/-- The check of a write on the row it finds. -/
def PassesOn : TxOp α → Option (Row α) → Prop
  | .create .., current => current = none
  | .update _ _ _ expectedVersion, current => VersionOk current expectedVersion
  | .delete _ _ expectedVersion, current =>
    ∀ version, expectedVersion = some version → VersionOk current (some version)
  | _, _ => True

/-- The row that a write leaves. -/
def value : TxOp α → Option (Row α)
  | .create _ _ data => some data
  | .update _ _ data _ => some data
  | _ => none

end TxOp

namespace Contents

/-- A point operation on the abstract store. -/
inductive Exec (c : Contents α) : TxEntry α → Contents α → Prop where
  | get {id : EntityId} : Exec c (.get model id, .row (c (model, entityIdKey id))) c
  | getMany : Exec c (.getMany model ids, .rows (ids.map fun id => c (model, entityIdKey id))) c
  | write : op.target = some a → op.PassesOn (c a) →
      Exec c (op, .done) (c.write (a, op.value))

end Contents

/-- Every point operation of a transaction is the abstract operation on its private store. -/
theorem Tx.RunCase.exec {tx tx' : Tx α} {op : TxOp α} {response : Response α}
    (h : tx.RunCase op tx' response) (hpoint : op.isPoint) :
    Contents.Exec tx.txStore.row? (op, response) tx'.txStore.row? := by
  cases h with
  | get => exact .get
  | getMany => exact .getMany
  | create hcreate =>
    obtain ⟨habsent, hw⟩ := MemoryStoreAdapter.create_ok hcreate
    simp only [hw.rows]
    exact .write rfl habsent
  | update hupdate =>
    obtain ⟨hversion, hw⟩ := MemoryStoreAdapter.update_ok hupdate
    simp only [hw.rows]
    exact .write rfl hversion
  | @delete model expectedVersion id store hdelete =>
    obtain ⟨hversion, _⟩ := MemoryStoreAdapter.delete_ok hdelete
    simp only [MemoryStoreAdapter.delete_rows hdelete]
    exact .write rfl hversion
  | savepoint => cases hpoint
  | savepointReturn => cases hpoint
  | savepointThrow => cases hpoint

/-! ## First writes -/

/-- The first operation of a list that writes a row. -/
def firstWrite (a : RowKey) (entries : List (TxEntry α)) : Option (TxOp α) :=
  (entries.find? fun e => e.1.target = some a).map Prod.fst

theorem firstWrite_append (a : RowKey) (entries : List (TxEntry α)) (entry : TxEntry α) :
    firstWrite a (entries ++ [entry]) =
      (firstWrite a entries).or (if entry.1.target = some a then some entry.1 else none) := by
  rw [firstWrite, List.find?_append, firstWrite]
  cases List.find? (fun e : TxEntry α => e.1.target = some a) entries with
  | some e => rfl
  | none =>
    simp only [Option.none_or, List.find?_cons, List.find?_nil, Option.map_none]
    split <;> split <;> simp_all

/-- Other contents on which the operations of a transaction give the same responses. -/
structure Agrees (c c₀ : Contents α) (entries : List (TxEntry α)) : Prop where
  reads : ∀ e ∈ entries, ∀ a ∈ e.1.reads, c a = c₀ a
  first : ∀ a w, firstWrite a entries = some w → w.PassesOn (c a)

theorem Agrees.left {c c₀ : Contents α} {entries : List (TxEntry α)} {entry : TxEntry α}
    (h : Agrees c c₀ (entries ++ [entry])) : Agrees c c₀ entries where
  reads e he := h.reads e (List.mem_append_left _ he)
  first a w hw := h.first a w (by rw [firstWrite_append, hw, Option.some_or])

/-- Where a run on `c` stands beside the same run on `c₀`: equal on the rows written so far,
and both as they began on the others. -/
structure Beside (c c₀ : Contents α) (entries : List (TxEntry α)) (d d₀ : Contents α) : Prop where
  written : ∀ a, (∃ w, firstWrite a entries = some w) → d a = d₀ a
  unwritten : ∀ a, firstWrite a entries = none → d a = c a ∧ d₀ a = c₀ a

variable {c c₀ d d₀ d₀' : Contents α} {entries : List (TxEntry α)} {entry : TxEntry α}

/-- A row that is read has the same value in both runs. -/
theorem Beside.read (h : Beside c c₀ entries d d₀) {a : RowKey} (ha : c a = c₀ a) :
    d a = d₀ a := by
  cases hf : firstWrite a entries with
  | some w => exact h.written a ⟨w, hf⟩
  | none =>
    obtain ⟨hd, hd₀⟩ := h.unwritten a hf
    rw [hd, hd₀, ha]

/-- A write that passed on `d₀` passes on `d`. -/
theorem Beside.passes (h : Beside c c₀ entries d d₀) (hagrees : Agrees c c₀ (entries ++ [entry]))
    {a : RowKey} (ha : entry.1.target = some a) (hpass : entry.1.PassesOn (d₀ a)) :
    entry.1.PassesOn (d a) := by
  cases hf : firstWrite a entries with
  | some w =>
    rw [h.written a ⟨w, hf⟩]
    exact hpass
  | none =>
    rw [(h.unwritten a hf).1]
    refine hagrees.first a entry.1 ?_
    rw [firstWrite_append, hf, if_pos ha, Option.none_or]

theorem Beside.step (h : Beside c c₀ entries d d₀) (hagrees : Agrees c c₀ (entries ++ [entry]))
    (hexec : Contents.Exec d₀ entry d₀') :
    ∃ d', Contents.Exec d entry d' ∧ Beside c c₀ (entries ++ [entry]) d' d₀' := by
  have hreads := hagrees.reads entry (List.mem_append_right _ List.mem_cons_self)
  cases hexec with
  | @get model id =>
    refine ⟨d, ?_, ?_⟩
    · rw [← h.read (hreads _ List.mem_cons_self)]
      exact .get
    · refine ⟨fun a ha => h.written a ?_, fun a ha => h.unwritten a ?_⟩
      · simpa [firstWrite_append, TxOp.target] using ha
      · simpa [firstWrite_append, TxOp.target] using ha
  | @getMany model ids =>
    refine ⟨d, ?_, ?_⟩
    · have hrows : (ids.map fun id => d₀ (model, entityIdKey id)) =
          ids.map fun id => d (model, entityIdKey id) :=
        List.map_congr_left fun id hid =>
          (h.read (hreads _ (List.mem_map_of_mem (f := fun id => (model, entityIdKey id)) hid))).symm
      rw [hrows]
      exact .getMany
    · refine ⟨fun a ha => h.written a ?_, fun a ha => h.unwritten a ?_⟩
      · simpa [firstWrite_append, TxOp.target] using ha
      · simpa [firstWrite_append, TxOp.target] using ha
  | @write a op ha hpass =>
    refine ⟨_, .write ha (h.passes hagrees ha hpass), fun b hb => ?_, fun b hb => ?_⟩
    · simp only [Contents.write]
      split
      · rfl
      · next hab =>
        refine h.written b ?_
        have hne : ((op, .done) : TxEntry α).1.target ≠ some b := by
          intro he
          exact hab (Option.some.inj (ha.symm.trans he))
        rwa [firstWrite_append, if_neg hne, Option.or_none] at hb
    · rw [firstWrite_append, Option.or_eq_none_iff] at hb
      have hab : a ≠ b := by
        rintro rfl
        rw [if_pos ha] at hb
        cases hb.2
      obtain ⟨hd, hd₀⟩ := h.unwritten b hb.1
      simp only [Contents.write, if_neg hab]
      exact ⟨hd, hd₀⟩

/-- The replay of a transaction that uses only point operations. -/
theorem Tx.Run.replay {s₀ : MemoryStoreAdapter α} {readOnly : Bool} {tx : Tx α}
    (h : Tx.Run (Tx.start s₀ readOnly) entries tx) (hpoint : ∀ e ∈ entries, e.1.isPoint)
    (hagrees : Agrees c s₀.row? entries) :
    ∃ d, Steps Contents.Exec c entries d ∧ Beside c s₀.row? entries d tx.txStore.row? := by
  refine h.history (P := fun tx entries => (∀ e ∈ entries, e.1.isPoint) →
    Agrees c s₀.row? entries →
    ∃ d, Steps Contents.Exec c entries d ∧ Beside c s₀.row? entries d tx.txStore.row?)
    ?_ ?_ hpoint hagrees
  · intro tx entries entry tx' ih hrun hpoint hagrees
    obtain ⟨d, hd, hbeside⟩ := ih (fun e he => hpoint e (List.mem_append_left _ he)) hagrees.left
    have hexec := (Tx.run_cases hrun).exec
      (hpoint entry (List.mem_append_right _ List.mem_cons_self))
    obtain ⟨d', hd', hbeside'⟩ := hbeside.step hagrees hexec
    exact ⟨d', .snoc hd hd', hbeside'⟩
  · intro _ _
    exact ⟨c, .nil, ⟨fun a ⟨w, hw⟩ => (nomatch hw), fun a _ => ⟨rfl, rfl⟩⟩⟩

end ActiveTs.MemoryStore
