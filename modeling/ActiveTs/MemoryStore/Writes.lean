import ActiveTs.MemoryStore.Revisions

/-! # The writes of the adapter's operations

One specification for each operation that returns: the condition it checked and the rows it
wrote. The commit of a transaction is the batch of its net changes. -/

namespace ActiveTs.MemoryStore

variable {α : Type}

/-- The row is there, under the expected version when there is one. -/
def VersionOk (current : Option (Row α)) (expectedVersion : Option Nat) : Prop :=
  ∃ row, current = some row ∧ ∀ version, expectedVersion = some version →
    row.version = some version

theorem VersionOk.none_iff {current : Option (Row α)} :
    VersionOk current none ↔ ∃ row, current = some row := by
  simp [VersionOk]

theorem memoryVersionMatches_iff {current : Option (Row α)} {version : Nat} :
    memoryVersionMatches current version ↔ VersionOk current (some version) := by
  cases current with
  | none => simp [memoryVersionMatches, VersionOk]
  | some row => simp [memoryVersionMatches, VersionOk]

namespace MemoryStoreAdapter

theorem has_iff {s : MemoryStoreAdapter α} {a : RowKey} : s.has a ↔ ∃ row, s.row? a = some row :=
  JsTable.contains_iff

theorem has_eq_false {s : MemoryStoreAdapter α} {a : RowKey} :
    s.has a = false ↔ s.row? a = none :=
  JsTable.contains_eq_false

theorem checkVersion_ok {s : MemoryStoreAdapter α} {a : RowKey} {target : String}
    {expectedVersion : Option Nat} (hrow : ∃ row, s.row? a = some row) :
    s.checkVersion a target expectedVersion = .ok () ↔ VersionOk (s.row? a) expectedVersion := by
  cases expectedVersion with
  | none => simpa [checkVersion, VersionOk.none_iff] using hrow
  | some version => simp [checkVersion, ← memoryVersionMatches_iff]

/-! ## Single rows -/

theorem setRow_ok {s s' : MemoryStoreAdapter α} {a : RowKey} {data : Row α}
    (h : s.setRow a data = .ok s') :
    Wrote s.rowRevisionGeneration s s' [(a, some data)] := by
  obtain ⟨⟨revision, s₁⟩, hr, h⟩ := Except.bind_eq_ok.mp h
  obtain ⟨_, _, rfl, rfl⟩ := reserveRowRevisions_ok.mp hr
  cases h
  exact (wrote_generation s _ 1).trans (wrote_put a data (Nat.lt_succ_self _) (Nat.le_refl _))

theorem removeRow_ok {s s' : MemoryStoreAdapter α} {a : RowKey}
    (h : s.removeRow a = .ok s') :
    Wrote s.rowRevisionGeneration s s' [(a, none)] := by
  obtain ⟨⟨revision, s₁⟩, hr, h⟩ := Except.bind_eq_ok.mp h
  obtain ⟨_, _, rfl, rfl⟩ := reserveRowRevisions_ok.mp hr
  cases h
  exact (wrote_generation s _ 1).trans (wrote_remove a (Nat.lt_succ_self _) (Nat.le_refl _))

theorem create_ok {s s' : MemoryStoreAdapter α} {model : String} {id : EntityId} {data : Row α}
    (h : s.create model id data = .ok s') :
    s.row? (model, entityIdKey id) = none ∧
      Wrote s.rowRevisionGeneration s s' [((model, entityIdKey id), some data)] := by
  simp only [create] at h
  split at h
  · cases h
  · next hhas => exact ⟨has_eq_false.mp (by simpa using hhas), setRow_ok h⟩

theorem update_ok {s s' : MemoryStoreAdapter α} {model : String} {id : EntityId} {data : Row α}
    {expectedVersion : Option Nat} (h : s.update model id data expectedVersion = .ok s') :
    VersionOk (s.row? (model, entityIdKey id)) expectedVersion ∧
      Wrote s.rowRevisionGeneration s s' [((model, entityIdKey id), some data)] := by
  simp only [update] at h
  split at h
  · cases h
  · next hhas =>
    obtain ⟨⟨⟩, hv, h⟩ := Except.bind_eq_ok.mp h
    have hrow := has_iff.mp (by simpa using hhas : s.has (model, entityIdKey id))
    exact ⟨(checkVersion_ok hrow).mp hv, setRow_ok h⟩

/-- A delete wrote its row exactly when it was there. -/
theorem delete_ok {s s' : MemoryStoreAdapter α} {model : String} {id : EntityId}
    {expectedVersion : Option Nat} (h : s.delete model id expectedVersion = .ok s') :
    (∀ version, expectedVersion = some version →
        VersionOk (s.row? (model, entityIdKey id)) (some version)) ∧
      Wrote s.rowRevisionGeneration s s'
        (if s.has (model, entityIdKey id) then [((model, entityIdKey id), none)] else []) := by
  simp only [delete] at h
  split at h
  · cases h
  · next hguard =>
    obtain ⟨⟨⟩, hv, h⟩ := Except.bind_eq_ok.mp h
    refine ⟨?_, ?_⟩
    · intro version hev
      subst hev
      have hhas : s.has (model, entityIdKey id) := by simpa using hguard
      exact (checkVersion_ok (has_iff.mp hhas)).mp hv
    · cases hhas : s.has (model, entityIdKey id) with
      | true =>
        simp only [hhas, if_true] at h
        exact removeRow_ok h
      | false =>
        simp only [hhas, Bool.false_eq_true, if_false, Except.ok.injEq] at h
        subst h
        exact .refl

theorem setRow_of_room {s : MemoryStoreAdapter α} (a : RowKey) (data : Row α)
    (h : s.rowRevisionGeneration < MAX_ROW_REVISION) :
    ∃ s', s.setRow a data = .ok s' ∧
      s'.rowRevisionGeneration = s.rowRevisionGeneration + 1 := by
  have hr := reserveRowRevisions_ok.mpr ⟨Nat.one_pos, h, rfl, rfl⟩
  exact ⟨_, Except.bind_eq_ok.mpr ⟨_, hr, rfl⟩, recordRowRevision_generation ..⟩

theorem create_of_absent {s : MemoryStoreAdapter α} (model : String) (id : EntityId)
    (data : Row α) (hrow : s.row? (model, entityIdKey id) = none)
    (h : s.rowRevisionGeneration < MAX_ROW_REVISION) :
    ∃ s', s.create model id data = .ok s' ∧
      s'.rowRevisionGeneration = s.rowRevisionGeneration + 1 := by
  simp only [create, has_eq_false.mpr hrow, Bool.false_eq_true, if_false]
  exact setRow_of_room _ data h

theorem update_of_present {s : MemoryStoreAdapter α} (model : String) (id : EntityId)
    (data : Row α) (hrow : ∃ row, s.row? (model, entityIdKey id) = some row)
    (h : s.rowRevisionGeneration < MAX_ROW_REVISION) :
    ∃ s', s.update model id data none = .ok s' ∧
      s'.rowRevisionGeneration = s.rowRevisionGeneration + 1 := by
  simp only [update, has_iff.mpr hrow, Bool.not_true, Bool.false_eq_true, if_false]
  exact setRow_of_room _ data h

/-- A delete that returned leaves its row absent, whether it was there or not. -/
theorem delete_rows {s s' : MemoryStoreAdapter α} {model : String} {id : EntityId}
    {expectedVersion : Option Nat} (h : s.delete model id expectedVersion = .ok s') :
    s'.row? = Contents.write s.row? ((model, entityIdKey id), none) := by
  rw [(delete_ok h).2.rows]
  cases hhas : s.has (model, entityIdKey id) with
  | true => rfl
  | false =>
    funext b
    simp only [Bool.false_eq_true, if_false, Contents.writes_nil, Contents.write]
    split
    · next hab => rw [← hab, has_eq_false.mp hhas]
    · rfl

/-! ## Batches -/

theorem reserveFor_ok {s s' : MemoryStoreAdapter α} {count first : Nat}
    (h : s.reserveFor count = .ok (first, s')) :
    s' = { s with rowRevisionGeneration := s.rowRevisionGeneration + count } ∧
      (0 < count → first = s.rowRevisionGeneration + 1) ∧
      (0 < count → s.rowRevisionGeneration + count ≤ MAX_ROW_REVISION) := by
  unfold reserveFor at h
  split at h
  · next hc =>
    cases h
    have hzero : ¬0 < count := by omega
    exact ⟨by simp [hc], fun hpos => absurd hpos hzero, fun hpos => absurd hpos hzero⟩
  · obtain ⟨_, hroom, hfirst, hs⟩ := reserveRowRevisions_ok.mp h
    exact ⟨hs, fun _ => hfirst, fun _ => hroom⟩

theorem reserveFor_of_room {s : MemoryStoreAdapter α} {count : Nat}
    (h : 0 < count → s.rowRevisionGeneration + count ≤ MAX_ROW_REVISION) :
    ∃ first s', s.reserveFor count = .ok (first, s') := by
  unfold reserveFor
  split
  · exact ⟨0, s, rfl⟩
  · next hc =>
    have hpos : 0 < count := Nat.pos_of_ne_zero hc
    exact ⟨_, _, reserveRowRevisions_ok.mpr ⟨hpos, h hpos, rfl, rfl⟩⟩

/-- Replacing the collections by ones with the same rows. -/
theorem wrote_collections {lo : Nat} {s : MemoryStoreAdapter α} {collections : Collections α}
    (h : ∀ a, collections.at? a = s.row? a) :
    Wrote lo s { s with collections := collections } [] where
  rows := funext h
  snapshots := rfl
  generation_le := Nat.le_refl _
  untouched _ _ := rfl
  revision _ _ h := .inl h
  recorded _ h := nomatch h

theorem firstDuplicate_go {seen keys : List String} (h : firstDuplicate.go seen keys = none) :
    keys.Nodup ∧ ∀ key ∈ keys, key ∉ seen := by
  induction keys generalizing seen with
  | nil => exact ⟨List.nodup_nil, fun _ hk => (nomatch hk)⟩
  | cons key rest ih =>
    rw [firstDuplicate.go] at h
    split at h
    · cases h
    · next hkey =>
      obtain ⟨hnd, hseen⟩ := ih h
      refine ⟨List.nodup_cons.mpr ⟨fun hmem => hseen key hmem List.mem_cons_self, hnd⟩, ?_⟩
      intro k hk
      rcases List.mem_cons.mp hk with rfl | hk
      · exact hkey
      · exact fun hs => hseen k hk (List.mem_cons_of_mem _ hs)

/-- A seed that returned had distinct new rows. -/
theorem seed_fresh {s s' : MemoryStoreAdapter α} {model : String}
    {rows : List (EntityId × Row α)} (h : s.seed model rows = .ok s') :
    (rows.map fun r => entityIdKey r.1).Nodup ∧
      ∀ r ∈ rows, s.row? (model, entityIdKey r.1) = none := by
  simp only [seed] at h
  split at h
  · cases h
  next hdup =>
  split at h
  · cases h
  next hfind =>
  have hkeys := (firstDuplicate_go hdup).1
  rw [List.map_map] at hkeys
  refine ⟨hkeys, fun r hr => ?_⟩
  rw [List.find?_eq_none] at hfind
  have := hfind (entityIdKey r.1, r.2) (List.mem_map_of_mem (f := fun r => (entityIdKey r.1, r.2)) hr)
  exact has_eq_false.mp (by simpa using this)

theorem seed_ok {s s' : MemoryStoreAdapter α} {model : String} {rows : List (EntityId × Row α)}
    (h : s.seed model rows = .ok s') :
    Wrote s.rowRevisionGeneration s s'
      (rows.map fun r => ((model, entityIdKey r.1), some r.2)) := by
  simp only [seed] at h
  split at h
  · cases h
  split at h
  · cases h
  obtain ⟨⟨first, s₁⟩, hr, h⟩ := Except.bind_eq_ok.mp h
  obtain ⟨rfl, hfirst, _⟩ := reserveFor_ok hr
  cases h
  have hloop := wrote_numbered s.rowRevisionGeneration first (P := fun _ => True)
    (f := fun (s : MemoryStoreAdapter α) (r : (String × Row α) × Nat) =>
      { s with collections := s.collections.put (model, r.1.1) r.1.2 }.recordRowRevision
        (model, r.1.1) r.2 true)
    (w := fun r => ((model, r.1), some r.2))
    (l := rows.map fun r => (entityIdKey r.1, r.2))
    (fun s r _ revision _ hlo hhi => ⟨trivial, wrote_put (model, r.1) r.2 hlo hhi⟩)
    (s := { s with
      rowRevisionGeneration := s.rowRevisionGeneration +
        (rows.map fun r => (entityIdKey r.1, r.2)).length
      collections := s.collections.set model (s.collections.inner model) })
    trivial
    (fun hpos => by
      have := hfirst hpos
      omega)
    (fun hpos => by
      have := hfirst hpos
      simp only at this ⊢
      omega)
  rw [List.map_map] at hloop
  exact ((wrote_generation s _ _).trans
    (wrote_collections (fun a => JsTable.at?_set_inner ..))).trans hloop

/-- Recording removals writes the removed rows, once they are out of the collections. -/
theorem recordRemovals_wrote (lo first : Nat) (removed : List RowKey)
    {s : MemoryStoreAdapter α} (hgone : ∀ a ∈ removed, s.row? a = none) (hlo : 0 < removed.length → lo < first)
    (hhi : 0 < removed.length → first + removed.length ≤ s.rowRevisionGeneration + 1) :
    Wrote lo s (s.recordRemovals removed first) (removed.map (·, none)) :=
  wrote_numbered lo first (P := fun s => ∀ a ∈ removed, s.row? a = none)
    (fun s a ha revision hP hlo hhi =>
      ⟨fun b hb => by simpa using hP b hb, wrote_gone (hP a ha) hlo hhi⟩)
    hgone hlo hhi

/-- A batch that first drops rows from the collections and then records them. -/
theorem reset_wrote {s s' : MemoryStoreAdapter α} {removed : List RowKey} {first count : Nat}
    {collections : Collections α} (hnd : removed.Nodup) (hcount : count = removed.length)
    (hrows : ∀ a, collections.at? a = if a ∈ removed then none else s.row? a)
    (hfirst : 0 < count → first = s.rowRevisionGeneration + 1)
    (h : s' = { s with
      rowRevisionGeneration := s.rowRevisionGeneration + count
      collections := collections }.recordRemovals removed first) :
    Wrote s.rowRevisionGeneration s s' (removed.map (·, none)) := by
  subst h hcount
  have hloop := recordRemovals_wrote s.rowRevisionGeneration first removed
    (s := { s with
      rowRevisionGeneration := s.rowRevisionGeneration + removed.length
      collections := collections })
    (fun a ha => by simp [row?, hrows, ha])
    (fun hpos => by
      have := hfirst hpos
      omega)
    (fun hpos => by
      have := hfirst hpos
      simp only
      omega)
  have hkeys : (removed.map fun a => ((a, none) : RowWrite α)).map Prod.fst = removed := by
    rw [List.map_map]
    exact List.map_id removed
  exact {
    hloop with
    rows := by
      rw [hloop.rows]
      funext a
      rcases em (a ∈ removed) with ha | ha
      · have hmem : (a, none) ∈ removed.map fun a => ((a, none) : RowWrite α) :=
          List.mem_map_of_mem (f := fun a => ((a, none) : RowWrite α)) ha
        rw [Contents.writes_of_mem _ (by rwa [hkeys]) hmem,
          Contents.writes_of_mem _ (by rwa [hkeys]) hmem]
      · rw [Contents.writes_of_not_mem _ (by rwa [hkeys]),
          Contents.writes_of_not_mem _ (by rwa [hkeys]), row?, hrows, if_neg ha]
    generation_le := Nat.le_trans (Nat.le_add_right ..) hloop.generation_le }

/-- The rows that `reset` removes. -/
def resetRows (s : MemoryStoreAdapter α) : Option String → List RowKey
  | some model => (s.collections.inner model).keys.map fun key => (model, key)
  | none => s.collections.rows.map JsTable.addr

theorem mem_resetRows {s : MemoryStoreAdapter α} {model : Option String} {a : RowKey} :
    a ∈ s.resetRows model ↔
      (∀ name, model = some name → name = a.1) ∧ ∃ row, s.row? a = some row := by
  cases model with
  | none =>
    rw [resetRows, JsTable.mem_rows_addr_iff]
    simp [row?]
  | some model =>
    simp only [resetRows, List.mem_map, JsMap.mem_keys_iff, Option.some.injEq, forall_eq']
    constructor
    · rintro ⟨key, ⟨row, hrow⟩, rfl⟩
      exact ⟨rfl, row, hrow⟩
    · rintro ⟨rfl, row, hrow⟩
      exact ⟨a.2, ⟨row, hrow⟩, rfl⟩

theorem resetRows_nodup (s : MemoryStoreAdapter α) (model : Option String) :
    (s.resetRows model).Nodup := by
  cases model with
  | none => exact JsTable.rows_addr_nodup _
  | some model => exact (JsMap.keys_nodup _).map fun _ _ h => (Prod.mk.inj h).2

theorem reset_ok {s s' : MemoryStoreAdapter α} {model : Option String}
    (h : s.reset model = .ok s') :
    Wrote s.rowRevisionGeneration s s' ((s.resetRows model).map (·, none)) := by
  have habsent : ∀ a, (∀ name, model = some name → name = a.1) → a ∉ s.resetRows model →
      s.row? a = none := by
    intro a hname ha
    rw [Option.eq_none_iff_forall_ne_some]
    exact fun row hrow => ha (mem_resetRows.mpr ⟨hname, row, hrow⟩)
  cases model with
  | some model =>
    obtain ⟨⟨first, s₁⟩, hr, h⟩ := Except.bind_eq_ok.mp h
    obtain ⟨rfl, hfirst, _⟩ := reserveFor_ok hr
    cases h
    refine reset_wrote (resetRows_nodup s (some model)) rfl (fun a => ?_) hfirst rfl
    rw [JsTable.at?_delete]
    split
    · next hname =>
      split
      · rfl
      · next ha => exact (habsent a (fun _ h => by cases h; exact hname) ha).symm
    · next hname =>
      rw [if_neg fun ha => hname ((mem_resetRows.mp ha).1 model rfl)]
      rfl
  | none =>
    obtain ⟨⟨first, s₁⟩, hr, h⟩ := Except.bind_eq_ok.mp h
    obtain ⟨rfl, hfirst, _⟩ := reserveFor_ok hr
    cases h
    refine reset_wrote (resetRows_nodup s none) rfl (fun a => ?_) hfirst rfl
    rw [JsTable.at?_empty]
    split
    · rfl
    · next ha => exact (habsent a (fun _ h => by cases h) ha).symm

end MemoryStoreAdapter

/-! ## Commit -/

/-- The row that a net change leaves behind. -/
def DirtyChange.value : DirtyChange α → Option (Row α)
  | .create value => some value
  | .update value _ => some value
  | .delete _ => none

/-- The row after a net change, or the row itself when there is none. -/
def DirtyChange.apply (before : Option (Row α)) : Option (DirtyChange α) → Option (Row α)
  | none => before
  | some change => change.value

namespace MemoryStoreAdapter

/-- The writes of a list of net changes on committed rows. -/
def changeWrites (s : MemoryStoreAdapter α) (changes : List (String × String × DirtyChange α)) :
    List (RowWrite α) :=
  (changes.filter s.mutates).map fun r => (JsTable.addr r, r.2.2.value)

theorem applyChange_wrote (lo revision : Nat) {s : MemoryStoreAdapter α}
    {r : String × String × DirtyChange α} (hlo : s.mutates r → lo < revision)
    (hhi : s.mutates r → revision ≤ s.rowRevisionGeneration) :
    Wrote lo s (s.applyChange revision r).1 (s.changeWrites [r]) ∧
      (s.applyChange revision r).2 = revision + (if s.mutates r then 1 else 0) := by
  obtain ⟨name, key, change⟩ := r
  cases change with
  | create value =>
    exact ⟨wrote_put (name, key) value (hlo rfl) (hhi rfl), rfl⟩
  | update value expectedVersion =>
    exact ⟨wrote_put (name, key) value (hlo rfl) (hhi rfl), rfl⟩
  | delete expectedVersion =>
    cases hhas : s.has (name, key) with
    | true =>
      have hm : s.mutates (name, key, .delete expectedVersion) := hhas
      simp only [applyChange, JsTable.addr, hhas, if_true, changeWrites, List.filter_cons, hm,
        List.filter_nil, List.map_cons, List.map_nil, and_true]
      exact wrote_remove (name, key) (hlo hm) (hhi hm)
    | false =>
      have hm : s.mutates (name, key, .delete expectedVersion) = false := hhas
      simp only [applyChange, JsTable.addr, hhas, Bool.false_eq_true, if_false, changeWrites,
        List.filter_cons, hm, List.filter_nil, List.map_nil]
      exact ⟨.refl, rfl⟩

/-- The rows that one net change leaves alone keep their presence. -/
theorem changeWrites_has {lo : Nat} {s s' : MemoryStoreAdapter α}
    {r : String × String × DirtyChange α} (h : Wrote lo s s' (s.changeWrites [r])) {a : RowKey}
    (ha : a ≠ JsTable.addr r) : s'.has a = s.has a := by
  have hnot : a ∉ (s.changeWrites [r]).map Prod.fst := by
    simp only [changeWrites, List.map_map, List.mem_map, List.mem_filter, List.mem_singleton]
    rintro ⟨_, ⟨rfl, _⟩, rfl⟩
    exact ha rfl
  have hrow : s'.row? a = s.row? a := by rw [h.rows, Contents.writes_of_not_mem _ hnot]
  change (s'.row? a).isSome = (s.row? a).isSome
  rw [hrow]

theorem mutates_congr {s s' : MemoryStoreAdapter α} {r : String × String × DirtyChange α}
    (h : s'.has (JsTable.addr r) = s.has (JsTable.addr r)) : s'.mutates r = s.mutates r := by
  obtain ⟨name, key, change⟩ := r
  cases change with
  | create value => rfl
  | update value expectedVersion => rfl
  | delete expectedVersion => exact h

theorem changeWrites_cons {s s' : MemoryStoreAdapter α} {r : String × String × DirtyChange α}
    {l : List (String × String × DirtyChange α)}
    (h : ∀ r' ∈ l, s'.has (JsTable.addr r') = s.has (JsTable.addr r')) :
    s.changeWrites (r :: l) = s.changeWrites [r] ++ s'.changeWrites l := by
  have hfilter : l.filter s'.mutates = l.filter s.mutates :=
    List.filter_congr fun r' hr' => mutates_congr (h r' hr')
  rw [changeWrites, changeWrites, changeWrites, hfilter, ← List.map_append, ← List.filter_append,
    List.singleton_append]

/-- The loop that applies the net changes writes each row that it mutates, once. -/
theorem applyChanges_wrote (lo revision : Nat) {s : MemoryStoreAdapter α}
    {l : List (String × String × DirtyChange α)} (hnd : (l.map JsTable.addr).Nodup)
    (hlo : 0 < l.countP s.mutates → lo < revision)
    (hhi : 0 < l.countP s.mutates →
      revision + l.countP s.mutates ≤ s.rowRevisionGeneration + 1) :
    Wrote lo s (l.foldl (fun p r => p.1.applyChange p.2 r) (s, revision)).1
      (s.changeWrites l) := by
  induction l generalizing s revision with
  | nil => exact .refl
  | cons r l ih =>
    rw [List.map_cons, List.nodup_cons] at hnd
    rw [List.countP_cons] at hlo hhi
    obtain ⟨hw, hnext⟩ := applyChange_wrote lo revision (s := s) (r := r)
      (fun hm => hlo (by simp [hm])) (fun hm => by
        have := hhi (by simp [hm])
        simp only [hm, if_true] at this
        omega)
    have hhas : ∀ r' ∈ l,
        (s.applyChange revision r).1.has (JsTable.addr r') = s.has (JsTable.addr r') := by
      intro r' hr'
      refine changeWrites_has hw fun he => hnd.1 ?_
      rw [← he]
      exact List.mem_map_of_mem hr'
    have hcount : l.countP (s.applyChange revision r).1.mutates = l.countP s.mutates :=
      List.countP_congr fun r' hr' => by rw [mutates_congr (hhas r' hr')]
    have hgen := hw.generation_le
    have hrest := ih (s.applyChange revision r).2 (s := (s.applyChange revision r).1) hnd.2
      (fun hpos => by
        rw [hcount] at hpos
        have := hlo (by omega)
        omega)
      (fun hpos => by
        rw [hcount] at hpos ⊢
        have := hhi (by omega)
        omega)
    rw [changeWrites_cons hhas]
    exact hw.trans hrest

/-- What a commit checked, and what it wrote. -/
structure Committed (s s' : MemoryStoreAdapter α) (dirty : Dirty α) (pointReads : PointReadSet)
    (revisionSnapshot : Nat) : Prop where
  changes : ∀ a change, dirty.at? a = some change → s.checkChange a change = .ok ()
  reads : ∀ a, pointReads.contains a → ∀ r, s.rowRevisions.at? a = some r →
    r ≤ revisionSnapshot
  room : 0 < dirty.rows.countP s.mutates →
    s.rowRevisionGeneration + dirty.rows.countP s.mutates ≤ MAX_ROW_REVISION
  wrote : Wrote s.rowRevisionGeneration s s' (s.changeWrites dirty.rows)

theorem checkPointRead_ok {s : MemoryStoreAdapter α} {revisionSnapshot : Nat} {a : RowKey} :
    s.checkPointRead revisionSnapshot a = .ok () ↔
      ∀ r, s.rowRevisions.at? a = some r → r ≤ revisionSnapshot := by
  unfold checkPointRead
  cases s.rowRevisions.at? a with
  | none => simp
  | some current => simp

theorem applyDirty_ok {s s' : MemoryStoreAdapter α} {dirty : Dirty α} {pointReads : PointReadSet}
    {revisionSnapshot : Nat} (h : s.applyDirty dirty pointReads revisionSnapshot = .ok s') :
    Committed s s' dirty pointReads revisionSnapshot := by
  obtain ⟨⟨⟩, hchanges, h⟩ := Except.bind_eq_ok.mp h
  obtain ⟨⟨⟩, hreads, h⟩ := Except.bind_eq_ok.mp h
  obtain ⟨⟨first, s₁⟩, hr, h⟩ := Except.bind_eq_ok.mp h
  obtain ⟨rfl, hfirst, hroom⟩ := reserveFor_ok hr
  cases h
  rw [Except.forM_eq_ok] at hchanges hreads
  refine ⟨fun a change hc => ?_, fun a ha => ?_, hroom, ?_⟩
  · exact hchanges (a.1, a.2, change) (JsTable.mem_rows_iff.mpr hc)
  · obtain ⟨v, hv⟩ := JsTable.contains_iff.mp ha
    exact checkPointRead_ok.mp (hreads (a.1, a.2, v) (JsTable.mem_rows_iff.mpr hv))
  · have hloop := applyChanges_wrote s.rowRevisionGeneration first
      (s := { s with
        rowRevisionGeneration := s.rowRevisionGeneration + dirty.rows.countP s.mutates })
      (JsTable.rows_addr_nodup dirty)
      (fun hpos => by
        have := hfirst hpos
        omega)
      (fun hpos => by
        have := hfirst hpos
        exact Nat.le_of_eq (by rw [this]; exact Nat.add_right_comm ..))
    exact (wrote_generation s _ _).trans hloop

/-- A commit whose checks pass goes through while the revision counter has room. -/
theorem applyDirty_of_checks {s : MemoryStoreAdapter α} {dirty : Dirty α}
    {pointReads : PointReadSet} {revisionSnapshot : Nat}
    (hchanges : ∀ a change, dirty.at? a = some change → s.checkChange a change = .ok ())
    (hreads : ∀ a r, s.rowRevisions.at? a = some r → r ≤ revisionSnapshot)
    (hroom : 0 < dirty.rows.countP s.mutates →
      s.rowRevisionGeneration + dirty.rows.countP s.mutates ≤ MAX_ROW_REVISION) :
    ∃ s', s.applyDirty dirty pointReads revisionSnapshot = .ok s' := by
  obtain ⟨first, s₁, hr⟩ := reserveFor_of_room hroom
  refine ⟨(dirty.rows.foldl (fun p r => p.1.applyChange p.2 r) (s₁, first)).1, ?_⟩
  refine Except.bind_eq_ok.mpr ⟨⟨⟩, Except.forM_eq_ok.mpr fun r hmem => ?_, ?_⟩
  · exact hchanges _ _ (JsTable.mem_rows_iff.mp hmem)
  refine Except.bind_eq_ok.mpr ⟨⟨⟩, Except.forM_eq_ok.mpr fun r _ => ?_, ?_⟩
  · exact checkPointRead_ok.mpr (hreads _)
  exact Except.bind_eq_ok.mpr ⟨(first, s₁), hr, rfl⟩

end MemoryStoreAdapter

end ActiveTs.MemoryStore
