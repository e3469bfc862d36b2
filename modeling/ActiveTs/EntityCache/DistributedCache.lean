import ActiveTs.EntityCache.Recovery

/-! # The tasks of a distributed cache

Every task keeps the protocol of `Recovery`: a load takes only rows that its process may still
see, and a fill sets only rows that are no older than the version it expects. -/

namespace ActiveTs.EntityCache.Recovery

set_option linter.unusedSectionVars false

variable {P T K V : Type} [DecidableEq P] [DecidableEq T] [DecidableEq K]

/-- Runs in which the clears are recovered. -/
abbrev Recovered (w : World P T K V) : Prop := Event.RecoveredClears w.log

abbrev Triple {α : Type} (t : T) (A : Began P T K → World P T K V → Prop)
    (c : CacheTask P T K V α) (Q : α → Began P T K → World P T K V → Prop)
    (E : Error → Began P T K → World P T K V → Prop) : Prop :=
  protocol.Triple Recovered t A c Q E

/-! ## Assertions -/

def Any (_ : Began P T K) (_ : World P T K V) : Prop := True

/-- The versions of the keys came after the writes that had failed when the load began. -/
def Readable (t : T) (p : P) (keys : List K) (began : Began P T K) (w : World P T K V) : Prop :=
  ∀ k ∈ keys, ∀ n ∈ Event.failedWrites p k (began t), n ≤ (w.cell k).installed

/-- The rows are no older than the writes that had failed when the load began. -/
def Found (t : T) (p : P) (found : List (K × Option (Row V))) (began : Began P T K)
    (_ : World P T K V) : Prop :=
  ∀ e ∈ found, ∀ row, e.2 = some row → ∀ n ∈ Event.failedWrites p e.1 (began t), n ≤ row.stamp

/-- The versions were given out. -/
def Known (versions : List (K × Nat)) (_ : Began P T K) (w : World P T K V) : Prop :=
  ∀ e ∈ versions, e.2 < w.nextVersion

/-- A row whose expected version is still the current one is no older than it. -/
def Fillable (versions : JsMap K Nat) (rows : List (K × Row V)) (_ : Began P T K)
    (w : World P T K V) : Prop :=
  ∀ r ∈ rows, ∀ version, versions.get? r.1 = some version → version < w.nextVersion ∧
    ((w.cell r.1).version = version → (w.cell r.1).installed ≤ r.2.stamp)

section
variable {t : T} {p : P}

theorem stable_any : (protocol (P := P) (K := K) (V := V)).Stable t Any :=
  fun _ _ _ _ _ h _ => h

theorem stable_readable (keys : List K) :
    (protocol (V := V)).Stable t (Readable t p keys) :=
  fun _ _ _ _ _ h hr k hk n hn =>
    Nat.le_trans (h k hk n (hr.own ▸ hn)) (hr.evolves.installed k)

theorem stable_found (found : List (K × Option (Row V))) :
    protocol.Stable t (Found t p found) :=
  fun _ _ _ _ _ h hr e he row hrow n hn => h e he row hrow n (hr.own ▸ hn)

theorem kept_known (versions : List (K × Nat)) :
    (protocol (P := P) (T := T) (V := V)).Kept (Known versions) :=
  fun _ _ _ _ h he e hmem => Nat.lt_of_lt_of_le (h e hmem) he.next

theorem kept_fillable (versions : JsMap K Nat) (rows : List (K × Row V)) :
    (protocol (P := P) (T := T)).Kept (Fillable versions rows) := by
  intro began w began' w' h he r hr version hversion
  obtain ⟨hlt, hle⟩ := h r hr version hversion
  refine ⟨Nat.lt_of_lt_of_le hlt he.next, fun hcur => ?_⟩
  rcases he.version r.1 with ⟨hsame, hinstalled⟩ | hnew
  · have hsame : (w'.cell r.1).version = (w.cell r.1).version := hsame
    exact Nat.le_trans (Nat.le_of_eq hinstalled) (hle (hsame.symm.trans hcur))
  · exact absurd (hcur ▸ hnew) (Nat.not_le_of_lt hlt)

theorem Fillable.subset {versions : JsMap K Nat} {rows rows' : List (K × Row V)}
    {began : Began P T K} {w : World P T K V} (h : Fillable versions rows began w)
    (hsub : rows' ⊆ rows) : Fillable versions rows' began w :=
  fun r hr => h r (hsub hr)

end

/-! ## Synchronous parts -/

section
variable {t : T} {p : P} {began : Began P T K} {w : World P T K V}

theorem moves_bumpAll (hinv : Inv began w) (keys : List K)
    (hgood : Recovered (World.bumpAll p t keys w).1) :
    (World.bumpAll p t keys w).2 = .ok () ∧
      Moves t began w began (World.bumpAll p t keys w).1 := by
  induction keys generalizing w with
  | nil => exact ⟨rfl, .refl hinv⟩
  | cons k keys ih =>
    rw [World.bumpAll] at hgood ⊢
    cases hbump : (w.memory p).bumpCacheEpoch k with
    | none =>
      rw [hbump] at hgood
      exact hgood.elim
    | some m =>
      rw [hbump] at hgood
      have hstep : Moves t began w began (w.setMemory p m) := moves_bump hinv hbump
      obtain ⟨hok, hmoves⟩ := ih hstep.inv hgood
      exact ⟨hok, hstep.trans hmoves⟩

theorem moves_markAll (hinv : Inv began w) (keys : List K)
    (hgood : Recovered (World.markAll p t keys w).1) :
    Moves t began w began (World.markAll p t keys w).1 := by
  induction keys generalizing w with
  | nil => exact .refl hinv
  | cons k keys ih =>
    simp only [World.markAll] at hgood ⊢
    split at hgood
    · exact hgood.elim
    · next hmarked =>
      rw [if_neg hmarked]
      have hstep : Moves t began w began _ := moves_mark (p := p) hinv k
      exact hstep.trans (ih hstep.inv hgood)

theorem moves_clearAll (hinv : Inv began w) (keys : List K)
    (hgood : Recovered (World.clearAll p t keys w)) :
    Moves t began w began (World.clearAll p t keys w) := by
  induction keys generalizing w with
  | nil => exact .refl hinv
  | cons k keys ih =>
    have hall : Recovered (World.clearAll p t keys (w.clear p t k)) := hgood
    obtain ⟨es, hlog⟩ := World.clearAll_log p t keys (w.clear p t k)
    have hlogged : Event.RecoveredClears (es ++ (w.clear p t k).log) := hlog ▸ hall
    have hclear : Recovered (w.clear p t k) := Event.EveryClear.of_append hlogged
    have hstep : Moves t began w began (w.clear p t k) := moves_clear hinv hclear.1
    exact hstep.trans (ih hstep.inv hall)

end

/-! ## Steps -/

section
variable {t : T} {p : P} {settings : Settings}

theorem triple_hook {A : Began P T K → World P T K V → Prop} (hA : protocol.Stable t A) :
    Triple t A CacheTask.hook (fun _ => A) fun _ => A :=
  .call (fun began _ hinv h _ => ⟨began, .refl hinv, h⟩) hA fun _ => hA

/-- A synchronous part after which nothing has to be known. -/
theorem triple_sync {α : Type} {A : Began P T K → World P T K V → Prop}
    {f : World P T K V → World P T K V × Except Error α}
    (h : ∀ began w, Inv began w → Recovered (f w).1 → Moves t began w began (f w).1) :
    Triple t A (CacheTask.sync f) (fun _ => Any) fun _ => Any :=
  .sync (fun began w hinv _ hgood =>
    ⟨began, h began w hinv hgood, fun _ _ => trivial, fun _ _ => trivial⟩)
    (fun _ => stable_any) fun _ => stable_any

theorem triple_removeKeys (hshared : settings.distributed = true) (keys : List K) :
    Triple (P := P) (V := V) t Any (removeKeys settings t keys) (fun _ => Any) fun _ => Any := by
  refine .call (fun began w hinv _ _ => ⟨began, ?_, trivial⟩) stable_any fun _ => stable_any
  simp only [hshared, if_true]
  exact moves_invalidate hinv keys

theorem triple_markAndThrow {α : Type} (keys : List K) (e : Error) :
    Triple (V := V) t Any (CacheTask.sync (World.markAndThrow p t keys e (α := α)))
      (fun _ => Any) fun _ => Any := by
  refine triple_sync fun began w hinv hgood => ?_
  rw [World.markAndThrow_fst] at hgood ⊢
  exact moves_markAll hinv keys hgood

theorem triple_clearAll (keys : List K) {E : Error → Began P T K → World P T K V → Prop} :
    Triple t Any (Prog.modify (World.clearAll p t keys)) (fun _ => Any) E :=
  .modifyGet (fun began _ hinv _ hgood => ⟨began, moves_clearAll hinv keys hgood, trivial⟩)
    fun _ => stable_any

/-! ## Invalidation -/

theorem triple_poison (hshared : settings.distributed = true) (keys : List K) (cause : Error) :
    Triple (V := V) t Any (poisonCommittedCacheSet settings p t keys cause) (fun _ => Any)
      fun _ => Any := by
  refine .ite (fun _ => .pure fun _ _ _ h => h) fun _ => .bind
    (triple_sync fun _ _ hinv hgood => (moves_bumpAll hinv keys hgood).2) fun _ => ?_
  exact .tryCatch _ (.bind (triple_removeKeys hshared keys) fun _ => triple_clearAll keys)
    fun _ => triple_markAndThrow keys _

theorem moves_finishInvalidate {began : Began P T K} {w : World P T K V} (hinv : Inv began w)
    {k : K} (hgood : Recovered (finishInvalidate p t k w).1) :
    Moves t began w began (finishInvalidate p t k w).1 := by
  unfold finishInvalidate at hgood ⊢
  split at hgood
  · next w' _ hbump =>
    obtain ⟨es, hlog⟩ := World.clearAll_log p t [k] w'
    have hlogged : Event.RecoveredClears (es ++ w'.log) := hlog ▸ hgood
    have hbumped : Recovered w' := Event.EveryClear.of_append hlogged
    have hstep := (moves_bumpAll (p := p) (t := t) hinv [k] (by rw [hbump]; exact hbumped)).2
    rw [hbump] at hstep
    exact hstep.trans (moves_clearAll hstep.inv [k] hgood)
  · next w' e hbump =>
    rw [World.markAndThrow_fst] at hgood
    obtain ⟨es, hlog⟩ := World.markAll_log p t [k] w'
    have hlogged : Event.RecoveredClears (es ++ w'.log) := hlog ▸ hgood
    have hbumped : Recovered w' := Event.EveryClear.of_append hlogged
    have hok := (moves_bumpAll (p := p) (t := t) hinv [k] (by rw [hbump]; exact hbumped)).1
    rw [hbump] at hok
    cases hok

theorem triple_performInvalidate (hshared : settings.distributed = true) (k : K) :
    Triple (V := V) t Any (performInvalidate settings p t k) (fun _ => Any) fun _ => Any := by
  refine .bind (triple_sync fun _ _ hinv hgood => (moves_bumpAll hinv [k] hgood).2) fun _ =>
    .bind (.tryCatch (fun _ => Any) ?_ fun e => triple_markAndThrow [k] e) fun _ =>
      .bind (triple_sync fun _ _ hinv hgood => moves_finishInvalidate hinv hgood) fun _ =>
        triple_hook stable_any
  exact .bind (triple_hook stable_any) fun _ => triple_removeKeys hshared [k]

/-! ## Fills -/

/-- The compare-and-set replaces a value only where the version is the one that was read before
the row. -/
theorem triple_setEntries (hshared : settings.distributed = true) (versions : JsMap K Nat)
    (entries : List (K × Row V)) :
    Triple (P := P) t (Fillable versions entries) (setEntries settings t versions entries)
      (fun _ => Any) fun _ => Any := by
  rw [setEntries, if_pos hshared]
  refine (Protocol.Triple.call (fun began w hinv h _ => ⟨began, moves_set hinv fun r hr => ?_,
    trivial⟩) (kept_fillable versions entries).stable fun _ => stable_any).weaken
      (fun _ _ _ h => h) (fun _ _ _ _ h => h) fun _ _ _ _ _ => trivial
  obtain ⟨e, he, rfl⟩ := List.mem_map.mp hr
  obtain ⟨hmem, hcur⟩ := List.mem_filter.mp he
  obtain ⟨e', he', hversion⟩ := List.mem_filterMap.mp hmem
  obtain ⟨version, hget, rfl⟩ := Option.map_eq_some_iff.mp hversion
  exact (h e' he' version hget).2 (of_decide_eq_true hcur)

theorem triple_settleSet (epochs : JsMap K Nat) (committed : List (K × Row V))
    {E : Error → Began P T K → World P T K V → Prop} :
    Triple t Any (Prog.modifyGet (settleSet p t epochs committed)) (fun _ => Any) E := by
  refine .modifyGet (fun began w hinv _ hgood => ⟨began, ?_, trivial⟩) fun _ => stable_any
  unfold settleSet at hgood ⊢
  split at hgood
  · next hstale =>
    rw [if_pos hstale]
    exact moves_clearAll hinv _ hgood
  · next hstale =>
    rw [if_neg hstale]
    exact .refl hinv

theorem triple_deleteStale (hshared : settings.distributed = true) (epochs : JsMap K Nat)
    (committed : List (K × Row V)) (settled : List K ⊕ List K) :
    Triple t Any (deleteStale settings p t epochs committed settled) (fun _ => Any)
      fun _ => Any := by
  cases settled with
  | inr stable => exact .pure fun _ _ _ h => h
  | inl stale =>
    refine .bind (.tryCatch _ (triple_removeKeys hshared stale) fun e =>
      triple_markAndThrow stale e) fun _ => ?_
    exact .modifyGet (fun began w hinv _ hgood => ⟨began, moves_clearAll hinv _ hgood, trivial⟩)
      fun _ => stable_any

theorem triple_commitEntries (hshared : settings.distributed = true)
    (epochs versions : JsMap K Nat) (writable : List (K × Row V)) :
    Triple t (Fillable versions writable) (commitEntries settings p t epochs versions writable)
      (fun _ => Any) fun _ => Any := by
  refine .ite (fun _ => .pure fun _ _ _ _ => trivial) fun _ => .bind
    (.tryCatch _ (triple_setEntries hshared versions writable) fun e => ?_) fun committed =>
      .bind (triple_settleSet epochs committed) fun settled =>
        .bind (triple_deleteStale hshared epochs committed settled) fun stable => ?_
  · exact .bind (triple_poison hshared _ e) fun _ => .throw fun _ _ _ h => h
  · exact .ite (fun _ => .pure fun _ _ _ h => h) fun _ => .tryCatch _ (triple_hook stable_any)
      fun e => .bind (triple_poison hshared stable e) fun _ => .throw fun _ _ _ h => h

theorem triple_writeCacheEntries (hshared : settings.distributed = true)
    (epochs versions : JsMap K Nat) (entries : List (K × Row V)) :
    Triple t (Fillable versions entries) (writeCacheEntries settings p t epochs versions entries)
      (fun _ => Any) fun _ => Any := by
  have hstable : ∀ rows : List (K × Row V),
      (protocol (P := P)).Stable t (Fillable versions rows) :=
    fun rows => (kept_fillable versions rows).stable
  refine .ite (fun _ => .pure fun _ _ _ _ => trivial) fun _ => .bind
    (.get (fun _ _ _ h => h.subset (List.filter_subset_self _)) hstable) fun pending => ?_
  refine .ite (fun _ => .pure fun _ _ _ _ => trivial) fun _ => .bind
    ((triple_hook (hstable pending)).weaken (fun _ _ _ h => h) (fun _ _ _ _ h => h)
      fun _ _ _ _ _ => trivial) fun _ => .bind
    (.get (fun _ _ _ h => h.subset (List.filter_subset_self _)) hstable) fun writable =>
      triple_commitEntries hshared epochs versions writable

/-! ## Loads -/

theorem triple_fillCache (hshared : settings.distributed = true) (epochs versions : JsMap K Nat)
    (loaded : List (K × Row V)) :
    Triple t (Fillable versions loaded) (fillCache settings p t epochs versions loaded)
      (fun _ => Any) fun _ => Any := by
  refine .ite (fun _ => .pure fun _ _ _ _ => trivial) fun _ => .bind
    (Q := fun rows => Fillable versions rows) ?_ fun rows => ?_
  · refine .get (fun _ w _ h => h.subset fun r hr => ?_)
      fun rows => (kept_fillable versions rows).stable
    exact (List.mem_filter.mp (List.mem_filter.mp hr).1).1
  · have hfirst := (triple_writeCacheEntries (p := p) (t := t) hshared epochs versions
      (rows.filter fun e => e.2.value.isSome)).frame (kept_fillable versions rows)
    refine .bind (hfirst.weaken (fun _ _ _ h => ⟨h.subset (List.filter_subset_self _), h⟩)
      (fun _ _ _ _ h => h) fun _ _ _ _ _ => trivial) fun _ => ?_
    exact (triple_writeCacheEntries hshared epochs versions _).pre fun _ _ _ h =>
      h.2.subset (List.filter_subset_self _)

/-- A key that the process may read has no failure, so its version came after the failed
writes. -/
theorem triple_takeSnapshot (keys : List K) {A : Began P T K → World P T K V → Prop}
    {E : Error → Began P T K → World P T K V → Prop} :
    Triple t A (Prog.modifyGet (takeSnapshot settings p t keys))
      (fun snapshot => Readable t p snapshot.readable) E := by
  refine .modifyGet (fun began w hinv _ _ => ⟨_, moves_begin hinv p, fun k hk n hn => ?_⟩)
    fun snapshot => stable_readable snapshot.readable
  rw [Function.update_self] at hn
  refine (hinv.failed p k n hn).resolve_left fun hfailed => ?_
  have hclear := (List.mem_filter.mp hk).2
  rw [hfailed] at hclear
  cases hclear

theorem triple_readEntries (hshared : settings.distributed = true) (keys : List K) :
    Triple (V := V) t (Readable t p keys) (readEntries settings keys)
      (fun found began w => Found t p found.1 began w ∧ Known found.2 began w)
      fun _ => Any := by
  rw [readEntries, if_pos hshared]
  refine .bind (Q := fun snapshots began w =>
    Found t p (snapshots.map fun e => (e.1, e.2.1)) began w ∧
      Known (snapshots.map fun e => (e.1, e.2.2)) began w)
    ((Protocol.Triple.call (fun began w hinv h _ => ⟨began, .refl hinv, ?_, ?_⟩)
      (stable_readable keys) fun _ => (stable_found _).and (kept_known _).stable).weaken
        (fun _ _ _ h => h) (fun _ _ _ _ h => h) fun _ _ _ _ _ => trivial)
    fun _ => .pure fun _ _ _ h => h
  · intro e he row hrow n hn
    simp only [World.getManyVersioned, List.map_map, List.mem_map, Function.comp_apply] at he
    obtain ⟨k, hk, rfl⟩ := he
    exact Nat.le_trans (h k hk n hn) (hinv.value k row hrow)
  · intro e he
    simp only [World.getManyVersioned, List.map_map, List.mem_map, Function.comp_apply] at he
    obtain ⟨k, hk, rfl⟩ := he
    exact hinv.version k

theorem triple_readCache (hshared : settings.distributed = true) (snapshot : Snapshot K) :
    Triple (V := V) t (Readable t p snapshot.readable) (readCache settings p t snapshot)
      (fun found => Known found.2) fun _ => Any := by
  have hstable := fun found : List (K × Option (Row V)) × List (K × Nat) =>
    (stable_found (t := t) (p := p) found.1).and (kept_known found.2).stable
  refine .ite (fun _ => .pure fun _ _ _ _ => nofun) fun _ => .bind
    ((triple_hook (stable_readable _)).weaken (fun _ _ _ h => h) (fun _ _ _ _ h => h)
      fun _ _ _ _ _ => trivial) fun _ => .bind (triple_readEntries hshared _) fun found => .bind
    ((triple_hook (hstable found)).weaken (fun _ _ _ h => h) (fun _ _ _ _ h => h)
      fun _ _ _ _ _ => trivial) fun _ => .bind (Q := fun _ => Known found.2)
    (.modifyGet (fun began w hinv h _ => ⟨began, moves_hits hinv p _ ?_, h.2⟩)
      fun _ => (kept_known found.2).stable) fun _ => .pure fun _ _ _ h => h
  intro r hr n hn
  obtain ⟨e, he, hrow⟩ := List.mem_filterMap.mp hr
  obtain ⟨_, hpolicy⟩ := Option.ite_none_right_eq_some.mp hrow
  obtain ⟨row, hvalue, rfl⟩ := Option.map_eq_some_iff.mp hpolicy
  exact h.1 e he row (Option.filter_eq_some_iff.mp hvalue).1 n hn

theorem triple_recoverVersions (snapshot : Snapshot K) :
    Triple (P := P) (V := V) t Any (recoverVersions snapshot) (fun recovered => Known recovered)
      fun _ => Any := by
  refine .ite (fun _ => .pure fun _ _ _ _ => nofun) fun _ => .tryCatch (fun _ => Any)
    (.bind (Q := fun snapshots => Known (snapshots.map fun e => (e.1, e.2.2)))
      (.call (fun began w hinv _ _ => ⟨began, .refl hinv, ?_⟩) stable_any
        fun _ => (kept_known _).stable) fun _ => .pure fun _ _ _ h => h)
    fun _ => .pure fun _ _ _ _ => nofun
  intro e he
  simp only [World.getManyVersioned, List.map_map, List.mem_map, Function.comp_apply] at he
  obtain ⟨k, hk, rfl⟩ := he
  exact hinv.version k

/-- The store is read after the version, so the row is no older than a version that stays. -/
theorem triple_readStore (versions : List (K × Nat)) (missing : List K) :
    Triple (P := P) (V := V) t (Known versions) (readStore missing)
      (fun loaded => Fillable (.ofEntries versions) loaded) fun _ => Any := by
  have hfillable := fun loaded : List (K × Row V) =>
    (kept_fillable (P := P) (T := T) (.ofEntries versions) loaded).stable (t := t)
  refine .ite (fun _ => .pure fun _ _ _ _ => nofun) fun _ => .bind
    ((triple_hook (kept_known versions).stable).weaken (fun _ _ _ h => h) (fun _ _ _ _ h => h)
      fun _ _ _ _ _ => trivial) fun _ => .bind
    (Q := fun loaded => Fillable (.ofEntries versions) loaded) ?_ fun loaded => .bind
      ((triple_hook (hfillable loaded)).weaken (fun _ _ _ h => h) (fun _ _ _ _ h => h)
        fun _ _ _ _ _ => trivial) fun _ => .pure fun _ _ _ h => h
  refine (Protocol.Triple.call (fun began w hinv h _ => ⟨began, .refl hinv, ?_⟩)
    (kept_known versions).stable hfillable).weaken (fun _ _ _ h => h) (fun _ _ _ _ h => h)
      fun _ _ _ _ _ => trivial
  intro r hr version hversion
  obtain ⟨k, _, rfl⟩ := List.mem_map.mp hr
  exact ⟨h (k, version) (JsMap.mem_of_get?_ofEntries hversion), fun _ => hinv.installed k⟩

theorem triple_loadBatch (hshared : settings.distributed = true) (ids : List K) :
    Triple (V := V) t Any (loadBatch settings p t ids) (fun _ => Any) fun _ => Any := by
  refine .bind (triple_takeSnapshot _) fun snapshot => .bind (triple_readCache hshared snapshot)
    fun found => .bind (Q := fun recovered => Known (found.2 ++ recovered)) ?_
    fun recovered => .bind (triple_readStore _ _) fun loaded => .bind
    ((triple_hook (kept_fillable _ loaded).stable).weaken (fun _ _ _ h => h)
      (fun _ _ _ _ h => h) fun _ _ _ _ _ => trivial) fun _ => .bind
    (triple_fillCache hshared snapshot.epochs _ loaded) fun _ => .pure fun _ _ _ h => h
  refine ((triple_recoverVersions snapshot).frame (kept_known found.2)).weaken
    (fun _ _ _ h => ⟨trivial, h⟩) (fun _ _ _ _ h e he => ?_) fun _ _ _ _ _ => trivial
  exact (List.mem_append.mp he).elim (h.2 e) (h.1 e)

theorem triple_loadChunks (hshared : settings.distributed = true) (chunks : List (List K)) :
    Triple (V := V) t Any (loadChunks settings p t chunks) (fun _ => Any) fun _ => Any := by
  induction chunks with
  | nil => exact .pure fun _ _ _ h => h
  | cons chunk chunks ih =>
    exact .bind (triple_loadBatch hshared chunk) fun _ => .bind ih fun _ => .pure fun _ _ _ h => h

theorem triple_run (hshared : settings.distributed = true) (operation : Operation K V) :
    Triple t Any (operation.run settings p t) (fun _ => Any) fun _ => Any := by
  cases operation with
  | load ids =>
    refine .bind (Q := fun _ => Any) (.ite (fun _ => .pure fun _ _ _ h => h) fun _ => .ite
      (fun _ => triple_loadChunks hshared _) fun _ => triple_loadBatch hshared ids) fun _ =>
        .pure fun _ _ _ h => h
  | write k value =>
    exact .bind (.call (Q := fun _ => Any) (fun began w hinv _ _ =>
      ⟨began, moves_write hinv k value, trivial⟩) stable_any fun _ => stable_any) fun _ =>
        triple_performInvalidate hshared k
  | expire k version =>
    exact .modifyGet (fun began w hinv _ _ => ⟨began, moves_expire hinv k version, trivial⟩)
      fun _ => stable_any

end

/-! ## Recovery -/

theorem inv_start (settings : Settings) (process : T → P) (operation : T → Operation K V)
    (store : K → Option V) :
    Inv (fun _ => []) (start settings process operation store).state := by
  refine ⟨fun _ _ h => (nomatch h), fun _ => Nat.le_refl _, fun _ => Nat.le_refl _,
    fun _ => Nat.zero_lt_one, fun _ _ _ h => (nomatch h), fun _ _ mid _ h => ?_, trivial⟩
  cases mid <;> cases h

theorem le_of_freshHits {t : T} {p : P} {k : K} {stamp n : Nat}
    {post mid past : List (Event P T K)}
    (h : Event.FreshHits (post ++ .cacheHit t p k stamp :: (mid ++ .loadStarted t p :: past)))
    (hn : n ∈ Event.failedWrites p k past) : n ≤ stamp :=
  h.of_append.1 mid past rfl n hn

/-- In every run whose clears are recovered, a load of a process takes no row from the cache that
is older than a write whose invalidation had failed in the process when the load began. -/
theorem hit_after_failedWrite {settings : Settings} (hshared : settings.distributed = true)
    {process : T → P} {operation : T → Operation K V} {store : K → Option V}
    {es : List (T × Bool)} {c : Pool T (World P T K V) Bool Error Unit}
    (hrun : (start settings process operation store).Run Recovered es c) {t : T} {p : P} {k : K}
    {stamp : Nat} {post mid past : List (Event P T K)}
    (hlog : c.state.log = post ++ .cacheHit t p k stamp :: (mid ++ .loadStarted t p :: past))
    {n : Nat} (hn : n ∈ Event.failedWrites p k past) : n ≤ stamp := by
  obtain ⟨began, hinv, _⟩ := protocol.sound (g := fun _ => []) (fun _ => Any)
    (fun _ _ => Any) (fun _ _ => Any) (fun _ => stable_any)
    (fun t => triple_run hshared (operation t)) (inv_start settings process operation store)
    (fun _ => trivial) hrun
  exact le_of_freshHits (hlog ▸ hinv.hits) hn

/-- The first task runs in a process of its own. -/
def inProcess : Fin 4 → Bool
  | 0 => true
  | _ => false

def rewritten : Fin 4 → Operation Unit Nat
  | 0 => .load [()]
  | 1 => .write () (some 1)
  | 2 => .write () (some 2)
  | 3 => .load [()]

/-- A write whose invalidation fails, a second one that clears the failure, a fill, and a load
that takes the row of the second write from the cache. -/
theorem hit_after_failedWrite_example :
    ∃ c past, (start ⟨true, true, 10⟩ inProcess rewritten fun _ => some 0).Run Recovered
        ([(1, true), (1, true), (1, true), (1, false), (1, true)] ++ List.replicate 6 (2, true) ++
          List.replicate 16 (0, true) ++ List.replicate 5 (3, true)) c ∧
      c.state.log = .cacheHit 3 false () 2 :: .loadStarted 3 false :: past ∧
      1 ∈ Event.failedWrites false () past ∧ 1 ≤ 2 := by
  obtain ⟨c, hexec, htest⟩ := (Option.any_eq_true _ _).mp (by decide :
    ((start ⟨true, true, 10⟩ inProcess rewritten fun _ => some 0).exec Recovered
      ([(1, true), (1, true), (1, true), (1, false), (1, true)] ++ List.replicate 6 (2, true) ++
        List.replicate 16 (0, true) ++ List.replicate 5 (3, true))).any fun c =>
      c.state.log = .cacheHit 3 false () 2 :: .loadStarted 3 false :: c.state.log.drop 2 ∧
        1 ∈ Event.failedWrites false () (c.state.log.drop 2))
  obtain ⟨hlog, hfailed⟩ := of_decide_eq_true htest
  have hsplit : c.state.log = [] ++ .cacheHit 3 false () 2 ::
    ([] ++ .loadStarted 3 false :: c.state.log.drop 2) := hlog
  exact ⟨c, _, .of_exec hexec, hlog, hfailed,
    hit_after_failedWrite rfl (.of_exec hexec) hsplit hfailed⟩

def poisoned : Fin 4 → Operation Unit Nat
  | 0 => .load [()]
  | 1 => .write () (some 1)
  | 2 => .load [()]
  | 3 => .load [()]

/-- The other process reads the version and the old row and pauses; the write of 1 fails to
invalidate; a load of its process recovers the key under the same version and clears the
failure; the other process sets the old row under that version, and a load takes it. -/
theorem not_hit_after_failedWrite :
    ¬ ∀ (es : List (Fin 4 × Bool)) (c : Pool (Fin 4) (World Bool (Fin 4) Unit Nat) Bool Error Unit)
        (stamp n : Nat) (past : List (Event Bool (Fin 4) Unit)),
      (start ⟨true, true, 10⟩ inProcess poisoned fun _ => some 0).Run (fun _ => True) es c →
      c.state.log = .cacheHit 3 false () stamp :: .loadStarted 3 false :: past →
      n ∈ Event.failedWrites false () past → n ≤ stamp := by
  intro h
  obtain ⟨c, hexec, htest⟩ := (Option.any_eq_true _ _).mp (by decide :
    ((start ⟨true, true, 10⟩ inProcess poisoned fun _ => some 0).exec (fun _ => True)
      (List.replicate 13 (0, true) ++ [(1, true), (1, true), (1, true), (1, false), (1, true)] ++
        List.replicate 13 (2, true) ++ List.replicate 3 (0, true) ++
        List.replicate 5 (3, true))).any fun c =>
      c.state.log = .cacheHit 3 false () 0 :: .loadStarted 3 false :: c.state.log.drop 2 ∧
        1 ∈ Event.failedWrites false () (c.state.log.drop 2))
  obtain ⟨hlog, hfailed⟩ := of_decide_eq_true htest
  exact absurd (h _ c 0 1 _ (.of_exec hexec) hlog hfailed) (by decide)

end ActiveTs.EntityCache.Recovery
