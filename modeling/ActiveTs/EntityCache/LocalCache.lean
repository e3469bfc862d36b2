import ActiveTs.EntityCache.Coherence

/-! # The tasks of a local cache

Every task keeps the protocol of `Coherence` and leaves no duty behind. -/

namespace ActiveTs.EntityCache.Coherence

set_option linter.unusedSectionVars false

variable {T K V : Type} [DecidableEq T] [DecidableEq K]

/-- Runs in which all clears are clean. -/
abbrev Clean (w : World Unit T K V) : Prop := Event.CleanClears w.log

abbrev Triple {α : Type} (t : T) (P : Duties T K → World Unit T K V → Prop)
    (p : CacheTask Unit T K V α) (Q : α → Duties T K → World Unit T K V → Prop)
    (E : Error → Duties T K → World Unit T K V → Prop) : Prop :=
  protocol.Triple Clean t P p Q E

/-! ## Assertions -/

section
variable (t : T)

def Idle (duty : Duties T K) (_ : World Unit T K V) : Prop := duty t = fun _ => .none

/-- The keys, and no others, are to be deleted or marked. -/
def Cleaning (keys : List K) (duty : Duties T K) (_ : World Unit T K V) : Prop :=
  ∀ k, duty t k = .none ∨ k ∈ keys ∧ duty t k = .deleting

def Wrote (k : K) (duty : Duties T K) (_ : World Unit T K V) : Prop :=
  duty t k = .wrote ∧ ∀ k', k' ≠ k → duty t k' = .none

/-- Some of the keys are cached under their noted epochs. -/
def Published (epochs : JsMap K Nat) (keys : List K) (duty : Duties T K)
    (_ : World Unit T K V) : Prop :=
  ∀ k, duty t k = .none ∨
    k ∈ keys ∧ ∃ epoch, epochs.get? k = some epoch ∧ duty t k = .published epoch

def Effected (keys : List K) (_ : Duties T K) (w : World Unit T K V) : Prop :=
  ∀ k ∈ keys, .effected t k ∈ w.log

end

def Noted (epochs : JsMap K Nat) (_ : Duties T K) (w : World Unit T K V) : Prop :=
  ∀ k epoch, epochs.get? k = some epoch → epoch ≤ (w.memory ()).cacheEpoch k

/-- The rows may be cached under the noted epochs. -/
def Fillable (epochs : JsMap K Nat) (rows : List (K × Row V)) (duty : Duties T K)
    (w : World Unit T K V) : Prop :=
  Noted epochs duty w ∧ ∀ r ∈ rows, ∀ epoch, epochs.get? r.1 = some epoch →
    Current duty w r.1 r.2 epoch

section
variable {t : T}

theorem stable_idle : (protocol (V := V)).Stable t (Idle (K := K) t) :=
  Protocol.Stable.own fun (d : K → Duty) => d = fun _ => .none

theorem stable_cleaning (keys : List K) :
    (protocol (V := V)).Stable t (Cleaning t keys) :=
  Protocol.Stable.own fun (d : K → Duty) => ∀ k, d k = .none ∨ k ∈ keys ∧ d k = .deleting

theorem stable_wrote (k : K) : (protocol (V := V)).Stable t (Wrote t k) :=
  Protocol.Stable.own fun (d : K → Duty) => d k = .wrote ∧ ∀ k', k' ≠ k → d k' = .none

theorem stable_published (epochs : JsMap K Nat) (keys : List K) :
    (protocol (V := V)).Stable t (Published t epochs keys) :=
  Protocol.Stable.own fun (d : K → Duty) => ∀ k, d k = .none ∨
    k ∈ keys ∧ ∃ epoch, epochs.get? k = some epoch ∧ d k = .published epoch

theorem kept_effected (keys : List K) : (protocol (V := V)).Kept (Effected t keys) :=
  fun _ _ _ _ h he k hk => he.log _ (h k hk)

theorem kept_fillable (epochs : JsMap K Nat) (rows : List (K × Row V)) :
    (protocol (T := T)).Kept (Fillable epochs rows) :=
  fun _ _ _ _ h he =>
    ⟨fun k epoch hk => Nat.le_trans (h.1 k epoch hk) (he.epochs k),
      fun r hr epoch hk => he.current _ _ _ (h.1 _ _ hk) (h.2 r hr epoch hk)⟩

theorem Fillable.subset {epochs : JsMap K Nat} {rows rows' : List (K × Row V)}
    {duty : Duties T K} {w : World Unit T K V} (h : Fillable epochs rows duty w)
    (hsub : rows' ⊆ rows) : Fillable epochs rows' duty w :=
  ⟨h.1, fun r hr => h.2 r (hsub hr)⟩

theorem Idle.cleaning {duty : Duties T K} {w : World Unit T K V} (h : Idle t duty w)
    (keys : List K) : Cleaning t keys duty w :=
  fun k => .inl (congrFun h k)

end

/-! ## Synchronous parts -/

section
variable {t : T} {duty duty' : Duties T K} {w : World Unit T K V}

/-- The task gives up its duties. -/
def release (t : T) (duty : Duties T K) : Duties T K := Function.update duty t fun _ => .none

theorem release_of_ne {u : T} (hu : u ≠ t) : release t duty u = duty u :=
  Function.update_of_ne hu ..

theorem release_self (k : K) : release t duty t k = .none :=
  congrFun (Function.update_self t _ duty) k

theorem idle_release : Idle t (release t duty) w := Function.update_self ..

theorem moves_bumpAll (hinv : Inv duty w) (keys : List K)
    (hgood : Clean (World.bumpAll () t keys w).1) :
    (World.bumpAll () t keys w).2 = .ok () ∧ Moves t duty w duty (World.bumpAll () t keys w).1 := by
  induction keys generalizing w with
  | nil => exact ⟨rfl, .refl hinv⟩
  | cons k keys ih =>
    rw [World.bumpAll] at hgood ⊢
    cases hbump : (w.memory ()).bumpCacheEpoch k with
    | none =>
      rw [hbump] at hgood
      exact hgood.elim
    | some m =>
      rw [hbump] at hgood
      have hstep : Moves t duty w duty (w.setMemory () m) :=
        moves_bump hinv hbump (fun _ _ => rfl) fun _ => .inl rfl
      obtain ⟨hok, hmoves⟩ := ih hstep.inv hgood
      exact ⟨hok, hstep.trans hmoves⟩

theorem moves_markAll (hinv : Inv duty w) (keys : List K)
    (hgood : Clean (World.markAll () t keys w).1) (hduty : ∀ u, u ≠ t → duty' u = duty u)
    (hown : ∀ k, duty' t k = duty t k ∨ k ∈ keys ∧ duty t k ≠ .wrote) :
    Moves t duty w duty' (World.markAll () t keys w).1 := by
  induction keys generalizing w duty with
  | nil =>
    have hsame : duty' = duty := by
      funext u
      rcases eq_or_ne u t with rfl | hu
      · exact funext fun k => (hown k).resolve_right fun h => List.not_mem_nil h.1
      · exact hduty u hu
    rw [hsame]
    exact .refl hinv
  | cons k keys ih =>
    simp only [World.markAll] at hgood ⊢
    split at hgood
    · exact hgood.elim
    · next hmarked =>
      rw [if_neg hmarked]
      let duty₁ : Duties T K := Function.update duty t (Function.update (duty t) k (duty' t k))
      have hself : duty₁ t = Function.update (duty t) k (duty' t k) := Function.update_self ..
      have hothers : ∀ u, u ≠ t → duty₁ u = duty u := fun u hu => Function.update_of_ne hu ..
      have hstep : Moves t duty w duty₁ _ := moves_mark hinv k hothers fun k' => by
        rw [hself]
        rcases eq_or_ne k' k with rfl | hne
        · rw [Function.update_self]
          exact (hown k').imp_right fun h => ⟨rfl, h.2⟩
        · exact .inl (Function.update_of_ne hne ..)
      refine hstep.trans (ih hstep.inv hgood
        (fun u hu => (hduty u hu).trans (hothers u hu).symm) fun k' => ?_)
      rw [hself]
      rcases eq_or_ne k' k with rfl | hne
      · rw [Function.update_self]
        exact .inl rfl
      · rw [Function.update_of_ne hne]
        exact (hown k').imp_right fun h => ⟨(List.mem_cons.mp h.1).resolve_left hne, h.2⟩

theorem moves_clearAll (hinv : Inv duty w) (keys : List K) (heffected : Effected t keys duty w)
    (hgood : Clean (World.clearAll () t keys w)) :
    Moves t duty w duty (World.clearAll () t keys w) := by
  induction keys generalizing w with
  | nil => exact .refl hinv
  | cons k keys ih =>
    have hall : Clean (World.clearAll () t keys (w.clear () t k)) := hgood
    obtain ⟨es, hlog⟩ := World.clearAll_log () t keys (w.clear () t k)
    have hlogged : Event.CleanClears (es ++ (w.clear () t k).log) := hlog ▸ hall
    have hclear : Clean (w.clear () t k) := Event.EveryClear.of_append hlogged
    have hfresh : Fresh duty w k := by
      rcases hinv.effected t k (heffected k List.mem_cons_self) with hfresh | hmarked
      · exact hfresh
      · exact absurd (hclear.1.symm.trans hmarked) Bool.false_ne_true
    have hstep : Moves t duty w duty (w.clear () t k) := moves_clear hinv hfresh
    exact hstep.trans (ih hstep.inv (fun k' hk' => hstep.evolves.log _
      (heffected k' (List.mem_cons_of_mem _ hk'))) hall)

end

/-! ## Steps -/

section
variable {t : T} {settings : Settings}

theorem triple_hook {P : Duties T K → World Unit T K V → Prop} (hP : protocol.Stable t P) :
    Triple t P CacheTask.hook (fun _ => P) fun _ => P :=
  .call (fun duty _ hinv h _ => ⟨duty, .refl hinv, h⟩) hP fun _ => hP

theorem triple_bumpAll (keys : List K) :
    Triple (V := V) t (Idle t) (CacheTask.sync (World.bumpAll () t keys)) (fun _ => Idle t)
      fun _ => Idle t :=
  .sync (fun duty _ hinv h hgood =>
    ⟨duty, (moves_bumpAll hinv keys hgood).2, fun _ _ => h, fun _ _ => h⟩)
    (fun _ => stable_idle) fun _ => stable_idle

theorem triple_removeKeys (hlocal : settings.distributed = false) (keys : List K) :
    Triple (V := V) t (Cleaning t keys) (removeKeys settings t keys)
      (fun _ duty w => Idle t duty w ∧ Effected t keys duty w) fun _ => Cleaning t keys := by
  refine .call (fun duty w hinv h _ => ⟨release t duty, ?_, idle_release, ?_⟩)
    (stable_cleaning keys) fun _ => stable_idle.and (kept_effected keys).stable
  · simp only [hlocal, Bool.false_eq_true, if_false]
    refine moves_delete hinv keys (fun _ => release_of_ne) fun k => ?_
    rcases h k with h | ⟨hin, h⟩
    · exact .inl ((release_self k).trans h.symm)
    · exact .inr ⟨hin, by rw [h]; exact nofun⟩
  · intro k hk
    simp only [hlocal, Bool.false_eq_true, if_false]
    exact List.mem_append_left _ (mem_effects.mpr ⟨rfl, hk⟩)

theorem triple_markAndThrow {α : Type} (keys : List K) (e : Error)
    {Q : α → Duties T K → World Unit T K V → Prop} (hQ : ∀ a, protocol.Stable t (Q a)) :
    Triple t (Cleaning t keys) (CacheTask.sync (World.markAndThrow () t keys e)) Q
      fun _ => Idle t := by
  refine .sync (fun duty w hinv h hgood => ⟨release t duty, ?_, fun a ha => ?_, fun _ _ => ?_⟩)
    hQ fun _ => stable_idle
  · rw [World.markAndThrow_fst] at hgood ⊢
    refine moves_markAll hinv keys hgood (fun _ => release_of_ne) fun k => ?_
    rcases h k with h | ⟨hin, h⟩
    · exact .inl ((release_self k).trans h.symm)
    · exact .inr ⟨hin, by rw [h]; exact nofun⟩
  · exact absurd ha (World.markAndThrow_ne_ok () t keys e w a)
  · exact idle_release

theorem triple_clearAll (keys : List K)
    {E : Error → Duties T K → World Unit T K V → Prop} :
    Triple t (fun duty w => Idle t duty w ∧ Effected t keys duty w)
      (Prog.modify (World.clearAll () t keys)) (fun _ => Idle t) E :=
  .modifyGet (fun duty _ hinv h hgood => ⟨duty, moves_clearAll hinv keys h.2 hgood, h.1⟩)
    fun _ => stable_idle

/-! ## Invalidation -/

theorem triple_poison (hlocal : settings.distributed = false) (keys : List K) (cause : Error) :
    Triple (V := V) t (Idle t) (poisonCommittedCacheSet settings () t keys cause)
      (fun _ => Idle t) fun _ => Idle t := by
  refine .ite (fun _ => .pure fun _ _ _ h => h) fun _ => .bind (triple_bumpAll keys) fun _ => ?_
  refine .tryCatch _ (.bind ((triple_removeKeys hlocal keys).pre fun _ _ _ h => h.cleaning keys)
    fun _ => triple_clearAll keys) fun e => ?_
  exact triple_markAndThrow keys _ fun _ => stable_idle

/-- The bump after the write: from now on the task owes the deletion. -/
theorem triple_bumpWritten (k : K) :
    Triple (V := V) t (Wrote t k) (CacheTask.sync (World.bumpAll () t [k]))
      (fun _ => Cleaning t [k]) fun _ => Idle t := by
  refine .sync (fun duty w hinv h hgood => ?_) (fun _ => stable_cleaning [k])
    fun _ => stable_idle
  simp only [World.bumpAll] at hgood ⊢
  cases hbump : (w.memory ()).bumpCacheEpoch k with
  | none =>
    rw [hbump] at hgood
    exact hgood.elim
  | some m =>
    let own : K → Duty := Function.update (fun _ => .none) k .deleting
    have hself : Function.update duty t own t = own := Function.update_self ..
    refine ⟨Function.update duty t own, ?_, fun _ _ k' => ?_, fun _ he => ?_⟩
    · refine moves_bump hinv hbump (fun u hu => Function.update_of_ne hu ..) fun k' => ?_
      rw [hself]
      rcases eq_or_ne k' k with rfl | hne
      · exact .inr ⟨rfl, Function.update_self ..⟩
      · exact .inl ((Function.update_of_ne hne ..).trans (h.2 k' hne).symm)
    · rw [hself]
      rcases eq_or_ne k' k with rfl | hne
      · exact .inr ⟨List.mem_singleton_self _, Function.update_self ..⟩
      · exact .inl (Function.update_of_ne hne ..)
    · simp only [reduceCtorEq] at he

theorem triple_finishInvalidate (k : K) :
    Triple (V := V) t (fun duty w => Idle t duty w ∧ Effected t [k] duty w)
      (CacheTask.sync (finishInvalidate () t k)) (fun _ => Idle t) fun _ => Idle t := by
  refine .sync (fun duty w hinv h hgood => ⟨duty, ?_, fun _ _ => h.1, fun _ _ => h.1⟩)
    (fun _ => stable_idle) fun _ => stable_idle
  unfold finishInvalidate at hgood ⊢
  split at hgood
  · next w' _ hbump =>
    obtain ⟨es, hlog⟩ := World.clearAll_log () t [k] w'
    have hlogged : Event.CleanClears (es ++ w'.log) := hlog ▸ hgood
    have hclean : Clean w' := Event.EveryClear.of_append hlogged
    have hstep := (moves_bumpAll (t := t) hinv [k] (by rw [hbump]; exact hclean)).2
    rw [hbump] at hstep
    exact hstep.trans (moves_clearAll hstep.inv [k]
      (fun k' hk' => hstep.evolves.log _ (h.2 k' hk')) hgood)
  · next w' e hbump =>
    rw [World.markAndThrow_fst] at hgood
    obtain ⟨es, hlog⟩ := World.markAll_log () t [k] w'
    have hlogged : Event.CleanClears (es ++ w'.log) := hlog ▸ hgood
    have hclean : Clean w' := Event.EveryClear.of_append hlogged
    have hok := (moves_bumpAll (t := t) hinv [k] (by rw [hbump]; exact hclean)).1
    rw [hbump] at hok
    cases hok

theorem triple_performInvalidate (hlocal : settings.distributed = false) (k : K) :
    Triple (V := V) t (Wrote t k) (performInvalidate settings () t k) (fun _ => Idle t)
      fun _ => Idle t := by
  refine .bind (triple_bumpWritten k) fun _ =>
    .bind (.tryCatch (fun _ => Cleaning t [k]) ?_ fun e => ?_) fun _ =>
      .bind (triple_finishInvalidate k) fun _ => triple_hook stable_idle
  · exact .bind (triple_hook (stable_cleaning [k])) fun _ => triple_removeKeys hlocal [k]
  · exact triple_markAndThrow [k] e fun _ => stable_idle.and (kept_effected [k]).stable

/-! ## Fills -/

/-- Rows that may be cached, under epochs that were noted for all of them. -/
def Ready (epochs : JsMap K Nat) (rows : List (K × Row V)) (duty : Duties T K)
    (w : World Unit T K V) : Prop :=
  Fillable epochs rows duty w ∧ ∀ r ∈ rows, ∃ epoch, epochs.get? r.1 = some epoch

theorem kept_ready (epochs : JsMap K Nat) (rows : List (K × Row V)) :
    (protocol (T := T)).Kept (Ready epochs rows) :=
  (kept_fillable epochs rows).and (.const _)

theorem Fillable.ready {epochs : JsMap K Nat} {rows : List (K × Row V)} {duty : Duties T K}
    {w : World Unit T K V} (h : Fillable epochs rows duty w) :
    Ready epochs (w.unchanged () epochs rows) duty w := by
  refine ⟨h.subset (List.filter_subset_self _), fun r hr => ?_⟩
  exact ⟨_, of_decide_eq_true (List.mem_filter.mp hr).2⟩

theorem triple_setEntries (hlocal : settings.distributed = false)
    (epochs versions : JsMap K Nat) (entries : List (K × Row V)) :
    Triple t (fun duty w => Idle t duty w ∧ Ready epochs entries duty w)
      (setEntries settings t versions entries)
      (fun committed duty w => Published t epochs (committed.map Prod.fst) duty w ∧
        Effected t (committed.map Prod.fst) duty w)
      fun _ => Idle t := by
  rw [setEntries, if_neg (by simp [hlocal])]
  refine (Protocol.Triple.call (fun duty w hinv h _ => ?_)
    (stable_idle.and (kept_ready epochs entries).stable)
    fun committed => (stable_published epochs _).and (kept_effected _).stable).weaken
      (fun _ _ _ h => h) (fun _ _ _ _ h => h) fun _ _ _ _ h => h.1
  obtain ⟨hidle, hready⟩ := h
  let own : K → Duty := fun k =>
    ((JsMap.lookup k entries).bind fun _ => epochs.get? k).elim .none .published
  have hself : Function.update duty t own t = own := Function.update_self ..
  have hpublished : ∀ k row, JsMap.lookup k entries = some row →
      ∃ epoch, epochs.get? k = some epoch ∧ own k = .published epoch := by
    intro k row hrow
    obtain ⟨epoch, hepoch⟩ := hready.2 (k, row) (JsMap.mem_of_lookup hrow)
    exact ⟨epoch, hepoch, by simp [own, hrow, show epochs.get? k = some epoch from hepoch]⟩
  refine ⟨Function.update duty t own, ?_, fun k => ?_, fun k hk => ?_⟩
  · refine moves_set hinv (fun u hu => Function.update_of_ne hu ..) (fun k row hrow => ?_)
      fun k hrow => ?_
    · obtain ⟨epoch, hepoch, hown⟩ := hpublished k row hrow
      exact ⟨congrFun hidle k, epoch, (congrFun hself k).trans hown,
        hready.1.2 (k, row) (JsMap.mem_of_lookup hrow) epoch hepoch⟩
    · rw [hself]
      exact (by simp [own, hrow] : own k = .none).trans (congrFun hidle k).symm
  · rw [hself]
    cases hrow : JsMap.lookup k entries with
    | none => exact .inl (by simp [own, hrow])
    | some row =>
      have hmem := List.mem_map_of_mem (f := Prod.fst) (JsMap.mem_of_lookup hrow)
      exact .inr ⟨hmem, hpublished k row hrow⟩
  · exact List.mem_append_left _ (mem_effects.mpr ⟨rfl, hk⟩)

/-- The committed keys are compared with their epochs: what is stale is to be deleted, and the
duty for the others is gone. -/
theorem moves_settle {duty : Duties T K} {w : World Unit T K V} (hinv : Inv duty w)
    {epochs : JsMap K Nat} {committed : List (K × Row V)}
    (h : Published t epochs (committed.map Prod.fst) duty w) :
    ∃ duty', Moves t duty w duty' w ∧ Cleaning t (staleKeys () epochs committed w) duty' w := by
  let own : K → Duty := fun k =>
    if k ∈ staleKeys () epochs committed w then .deleting else .none
  have hself : Function.update duty t own t = own := Function.update_self ..
  refine ⟨Function.update duty t own, ?_, fun k => ?_⟩
  · refine moves_relabel hinv (fun u hu => Function.update_of_ne hu ..) fun k => ?_
    rw [hself]
    rcases h k with h | ⟨hk, epoch, hepoch, h⟩
    · rw [h]
      exact ⟨nofun, False.elim⟩
    · rw [h]
      refine ⟨nofun, fun hlive => ?_⟩
      have hlive : epoch < (w.memory ()).cacheEpoch k := hlive
      have hstale : k ∈ staleKeys () epochs committed w := by
        obtain ⟨r, hr, rfl⟩ := List.mem_map.mp hk
        refine List.mem_map_of_mem (List.mem_filter.mpr ⟨hr, ?_⟩)
        simp only [Memory.cacheEpochUnchanged, hepoch, Option.some.injEq, Bool.not_eq_true',
          decide_eq_false_iff_not]
        exact Nat.ne_of_lt hlive
      simp only [own, if_pos hstale]
      exact trivial
  · rw [hself]
    rcases Classical.em (k ∈ staleKeys () epochs committed w) with hk | hk
    · exact .inr ⟨hk, if_pos hk⟩
    · exact .inl (if_neg hk)

theorem moves_clearStable {duty : Duties T K} {w : World Unit T K V} (hinv : Inv duty w)
    {epochs : JsMap K Nat} {committed : List (K × Row V)}
    (heffected : Effected t (committed.map Prod.fst) duty w)
    (hgood : Clean (clearStable () t epochs committed w).1) :
    Moves t duty w duty (clearStable () t epochs committed w).1 := by
  refine moves_clearAll hinv _ (fun k hk => heffected k ?_) hgood
  exact List.map_subset Prod.fst (List.filter_subset_self _) hk

/-- What holds after the comparison. -/
def Settled (t : T) (committed : List (K × Row V)) :
    List K ⊕ List K → Duties T K → World Unit T K V → Prop
  | .inl stale => fun duty w =>
    Cleaning t stale duty w ∧ Effected t (committed.map Prod.fst) duty w
  | .inr _ => Idle t

theorem triple_settleSet (epochs : JsMap K Nat) (committed : List (K × Row V))
    {E : Error → Duties T K → World Unit T K V → Prop} :
    Triple t (fun duty w => Published t epochs (committed.map Prod.fst) duty w ∧
        Effected t (committed.map Prod.fst) duty w)
      (Prog.modifyGet (settleSet () t epochs committed)) (Settled t committed) E := by
  refine .modifyGet (fun duty w hinv h hgood => ?_) fun settled => ?_
  · obtain ⟨duty', hmoves, hclean⟩ := moves_settle hinv h.1
    have heffected : Effected t (committed.map Prod.fst) duty' w := h.2
    refine ⟨duty', ?_⟩
    unfold settleSet at hgood ⊢
    split at hgood
    · next hstale =>
      rw [if_pos hstale]
      refine ⟨hmoves.trans (moves_clearStable hmoves.inv heffected hgood), funext fun k => ?_⟩
      rw [hstale] at hclean
      exact (hclean k).resolve_right fun hk => List.not_mem_nil hk.1
    · next hstale =>
      rw [if_neg hstale]
      exact ⟨hmoves, hclean, heffected⟩
  · cases settled with
    | inl stale => exact (stable_cleaning stale).and (kept_effected _).stable
    | inr _ => exact stable_idle

theorem triple_deleteStale (hlocal : settings.distributed = false) (epochs : JsMap K Nat)
    (committed : List (K × Row V)) (settled : List K ⊕ List K) :
    Triple t (Settled t committed settled) (deleteStale settings () t epochs committed settled)
      (fun _ => Idle t) fun _ => Idle t := by
  cases settled with
  | inr stable => exact .pure fun _ _ _ h => h
  | inl stale =>
    have hremove := ((triple_removeKeys (t := t) hlocal stale).frame
      (kept_effected (V := V) (t := t) (committed.map Prod.fst)))
    refine .bind (.tryCatch _ hremove fun e => ?_) fun _ => ?_
    · exact (triple_markAndThrow stale e fun _ =>
        (stable_idle.and (kept_effected stale).stable).and (kept_effected _).stable).pre
          fun _ _ _ h => h.1
    · exact .modifyGet (fun duty w hinv h hgood =>
        ⟨duty, moves_clearStable hinv h.2 hgood, h.1.1⟩) fun _ => stable_idle

theorem triple_afterCacheSet (hlocal : settings.distributed = false) (stable : List K) :
    Triple (V := V) t (Idle t) (afterCacheSet settings () t stable) (fun _ => Idle t)
      fun _ => Idle t := by
  refine .ite (fun _ => .pure fun _ _ _ h => h) fun _ => .tryCatch _ (triple_hook stable_idle)
    fun e => .bind (triple_poison hlocal stable e) fun _ => .throw fun _ _ _ h => h

theorem triple_commitEntries (hlocal : settings.distributed = false)
    (epochs versions : JsMap K Nat) (writable : List (K × Row V)) :
    Triple t (fun duty w => Idle t duty w ∧ Ready epochs writable duty w)
      (commitEntries settings () t epochs versions writable) (fun _ => Idle t)
      fun _ => Idle t := by
  refine .ite (fun _ => .pure fun _ _ _ h => h.1) fun _ => .bind
    (.tryCatch _ (triple_setEntries hlocal epochs versions writable) fun e => ?_) fun committed =>
      .bind (triple_settleSet epochs committed) fun settled =>
        .bind (triple_deleteStale hlocal epochs committed settled) fun stable =>
          triple_afterCacheSet hlocal stable
  exact .bind (triple_poison hlocal _ e) fun _ => .throw fun _ _ _ h => h

theorem triple_writeCacheEntries (hlocal : settings.distributed = false)
    (epochs versions : JsMap K Nat) (entries : List (K × Row V)) :
    Triple t (fun duty w => Idle t duty w ∧ Fillable epochs entries duty w)
      (writeCacheEntries settings () t epochs versions entries) (fun _ => Idle t)
      fun _ => Idle t := by
  have hstable : ∀ rows : List (K × Row V), protocol.Stable t
      (fun (duty : Duties T K) w => Idle t duty w ∧ Fillable epochs rows duty w) :=
    fun rows => stable_idle.and (kept_fillable epochs rows).stable
  refine .ite (fun _ => .pure fun _ _ _ h => h.1) fun _ => .bind
    (.get (fun _ _ _ h => ⟨h.1, h.2.subset (List.filter_subset_self _)⟩) hstable) fun pending => ?_
  refine .ite (fun _ => .pure fun _ _ _ h => h.1) fun _ => .bind
    ((triple_hook (hstable pending)).weaken (fun _ _ _ h => h) (fun _ _ _ _ h => h)
      fun _ _ _ _ h => h.1) fun _ => .bind (.get (fun _ _ _ h => ⟨h.1, h.2.ready⟩)
        fun rows => stable_idle.and (kept_ready epochs rows).stable) fun writable =>
          triple_commitEntries hlocal epochs versions writable

/-! ## Loads -/

theorem triple_fillCache (hlocal : settings.distributed = false) (epochs versions : JsMap K Nat)
    (loaded : List (K × Row V)) :
    Triple t (fun duty w => Idle t duty w ∧ Fillable epochs loaded duty w)
      (fillCache settings () t epochs versions loaded) (fun _ => Idle t) fun _ => Idle t := by
  refine .ite (fun _ => .pure fun _ _ _ h => h.1) fun _ => .bind
    (Q := fun rows duty w => Idle t duty w ∧ Fillable epochs rows duty w) ?_ fun rows => ?_
  · refine .get (fun _ w _ h => ⟨h.1, h.2.subset fun r hr => ?_⟩)
      fun rows => stable_idle.and (kept_fillable epochs rows).stable
    exact (List.mem_filter.mp (List.mem_filter.mp hr).1).1
  · -- the first call keeps what the second one needs
    have hfirst := (triple_writeCacheEntries (t := t) hlocal epochs versions
      (rows.filter fun e => e.2.value.isSome)).frame (kept_fillable epochs rows)
    refine .bind (hfirst.weaken
      (fun _ _ _ h => ⟨⟨h.1, h.2.subset (List.filter_subset_self _)⟩, h.2⟩) (fun _ _ _ _ h => h)
      fun _ _ _ _ h => h.1) fun _ => ?_
    exact (triple_writeCacheEntries hlocal epochs versions _).pre fun _ _ _ h =>
      ⟨h.1, h.2.subset (List.filter_subset_self _)⟩

theorem kept_noted (epochs : JsMap K Nat) : (protocol (V := V)).Kept (Noted (T := T) epochs) :=
  fun _ _ _ _ h he k epoch hk => Nat.le_trans (h k epoch hk) (he.epochs k)

theorem stable_noting (epochs : JsMap K Nat) : protocol.Stable t
    (fun (duty : Duties T K) (w : World Unit T K V) => Idle t duty w ∧ Noted epochs duty w) :=
  stable_idle.and (kept_noted epochs).stable

theorem triple_takeSnapshot (keys : List K) {E : Error → Duties T K → World Unit T K V → Prop} :
    Triple t (Idle t) (Prog.modifyGet (takeSnapshot settings () t keys))
      (fun snapshot duty w => Idle t duty w ∧ Noted snapshot.epochs duty w) E := by
  refine .modifyGet (fun duty w hinv h _ => ⟨duty, ?_, h, fun k epoch hk => ?_⟩)
    fun snapshot => stable_noting snapshot.epochs
  · exact moves_record hinv [.loadStarted t ()] (by simp) (by simp [Event.marks])
  · obtain ⟨k', _, he⟩ := List.mem_map.mp (JsMap.mem_of_get?_ofEntries hk)
    cases he
    exact Nat.le_refl _

/-- A call that only reads. -/
theorem triple_read {α : Type} {f : World Unit T K V → α}
    {P : Duties T K → World Unit T K V → Prop} (hP : protocol.Stable t P) :
    Triple t P (CacheTask.call fun w => (w, f w)) (fun _ => P) fun _ => P :=
  .call (fun duty _ hinv h _ => ⟨duty, .refl hinv, h⟩) hP fun _ => hP

theorem triple_readCache (snapshot : Snapshot K) :
    Triple t (fun duty (w : World Unit T K V) => Idle t duty w ∧ Noted snapshot.epochs duty w)
      (readCache settings () t snapshot)
      (fun _ duty w => Idle t duty w ∧ Noted snapshot.epochs duty w)
      fun _ duty w => Idle t duty w ∧ Noted snapshot.epochs duty w := by
  have hstable := stable_noting (t := t) (V := V) snapshot.epochs
  refine .ite (fun _ => .pure fun _ _ _ h => h) fun _ => .bind (triple_hook hstable) fun _ =>
    .bind ?_ fun found => .bind (triple_hook hstable) fun _ =>
      .bind (.modifyGet (fun duty w hinv h _ => ⟨duty, ?_, h⟩) fun _ => hstable)
        fun _ => .pure fun _ _ _ h => h
  · exact .ite
      (fun _ => .bind (triple_read hstable) fun _ => .pure fun _ _ _ h => h)
      fun _ => .bind (triple_read hstable) fun _ => .pure fun _ _ _ h => h
  · exact moves_record hinv _ (by simp) (by simp [Event.marks])

theorem triple_recoverVersions (snapshot : Snapshot K) {P : Duties T K → World Unit T K V → Prop}
    (hP : protocol.Stable t P) :
    Triple t P (recoverVersions snapshot) (fun _ => P) fun _ => P :=
  .ite (fun _ => .pure fun _ _ _ h => h) fun _ => .tryCatch _
    (.bind (triple_read hP) fun _ => .pure fun _ _ _ h => h) fun _ => .pure fun _ _ _ h => h

/-- The rows that a load reads may be cached under the epochs that it noted before. -/
theorem triple_readStore (epochs : JsMap K Nat) (missing : List K) :
    Triple t (fun duty (w : World Unit T K V) => Idle t duty w ∧ Noted epochs duty w)
      (readStore missing) (fun loaded duty w => Idle t duty w ∧ Fillable epochs loaded duty w)
      fun _ => Idle t := by
  have hstable := stable_noting (t := t) (V := V) epochs
  have hfillable := fun loaded : List (K × Row V) =>
    stable_idle.and (kept_fillable (T := T) epochs loaded).stable (t := t)
  refine .ite (fun _ => .pure fun _ _ _ h => ⟨h.1, h.2, nofun⟩) fun _ => .bind
    ((triple_hook hstable).weaken (fun _ _ _ h => h) (fun _ _ _ _ h => h)
      fun _ _ _ _ h => h.1) fun _ => .bind (Q := fun loaded duty w =>
        Idle t duty w ∧ Fillable epochs loaded duty w) ?_ fun loaded => .bind
          ((triple_hook (hfillable loaded)).weaken (fun _ _ _ h => h) (fun _ _ _ _ h => h)
            fun _ _ _ _ h => h.1) fun _ => .pure fun _ _ _ h => h
  refine (Protocol.Triple.call (fun duty w hinv h _ => ⟨duty, .refl hinv, h.1, h.2, ?_⟩) hstable
    hfillable).weaken (fun _ _ _ h => h) (fun _ _ _ _ h => h) fun _ _ _ _ h => h.1
  intro r hr epoch _
  obtain ⟨k, _, rfl⟩ := List.mem_map.mp hr
  exact .inl rfl

theorem triple_loadBatch (hlocal : settings.distributed = false) (ids : List K) :
    Triple (V := V) t (Idle t) (loadBatch settings () t ids) (fun _ => Idle t)
      fun _ => Idle t := by
  refine .bind (triple_takeSnapshot _) fun snapshot => .bind
    ((triple_readCache snapshot).weaken (fun _ _ _ h => h) (fun _ _ _ _ h => h)
      fun _ _ _ _ h => h.1) fun found => .bind
    ((triple_recoverVersions snapshot (stable_noting snapshot.epochs)).weaken (fun _ _ _ h => h)
      (fun _ _ _ _ h => h) fun _ _ _ _ h => h.1) fun recovered => .bind
    (triple_readStore snapshot.epochs _) fun loaded => .bind
    ((triple_hook (stable_idle.and (kept_fillable snapshot.epochs loaded).stable)).weaken
      (fun _ _ _ h => h) (fun _ _ _ _ h => h) fun _ _ _ _ h => h.1) fun _ => .bind
    (triple_fillCache hlocal snapshot.epochs _ loaded) fun _ => .pure fun _ _ _ h => h

theorem triple_loadChunks (hlocal : settings.distributed = false) (chunks : List (List K)) :
    Triple (V := V) t (Idle t) (loadChunks settings () t chunks) (fun _ => Idle t)
      fun _ => Idle t := by
  induction chunks with
  | nil => exact .pure fun _ _ _ h => h
  | cons chunk chunks ih =>
    exact .bind (triple_loadBatch hlocal chunk) fun _ => .bind ih fun _ => .pure fun _ _ _ h => h

theorem triple_loadManyNow (hlocal : settings.distributed = false) (ids : List K) :
    Triple (V := V) t (Idle t) (loadManyNow settings () t ids) (fun _ => Idle t)
      fun _ => Idle t :=
  .ite (fun _ => .pure fun _ _ _ h => h) fun _ =>
    .ite (fun _ => triple_loadChunks hlocal _) fun _ => triple_loadBatch hlocal ids

theorem triple_run (hlocal : settings.distributed = false) (operation : Operation K V) :
    Triple t (Idle t) (operation.run settings () t) (fun _ => Idle t) fun _ => Idle t := by
  cases operation with
  | load ids => exact .bind (triple_loadManyNow hlocal ids) fun _ => .pure fun _ _ _ h => h
  | write k value =>
    refine .bind (.call (Q := fun _ => Wrote t k) (fun duty w hinv h _ => ?_) stable_idle
      fun _ => stable_wrote k) fun _ => triple_performInvalidate hlocal k
    let own : K → Duty := Function.update (fun _ => .none) k .wrote
    have hself : Function.update duty t own t = own := Function.update_self ..
    have hk : own k = .wrote := Function.update_self ..
    have hown : ∀ k', k' ≠ k → own k' = .none := fun k' hne => Function.update_of_ne hne ..
    refine ⟨Function.update duty t own, ?_, (congrFun hself k).trans hk,
      fun k' hne => (congrFun hself k').trans (hown k' hne)⟩
    exact moves_write hinv (fun u hu => Function.update_of_ne hu ..)
      ((congrFun hself k).trans hk)
      fun k' hne => ((congrFun hself k').trans (hown k' hne)).trans (congrFun h k').symm
  | expire k version =>
    exact .modifyGet (fun duty w hinv h _ => ⟨duty, moves_expire hinv k version, h⟩)
      fun _ => stable_idle

end

/-! ## Coherence -/

/-- The key is reported as failed, or its entry, if there is one, is the row of the store. -/
def Coherent (w : World Unit T K V) (k : K) : Prop :=
  (w.memory ()).hasCacheInvalidationFailure k ∨ ∀ row, (w.cell k).value = some row → row = w.store k

/-- In every run with clean clears, every key is coherent whenever no task is in flight. -/
theorem coherent_of_clean {settings : Settings} (hlocal : settings.distributed = false)
    {operation : T → Operation K V} {store : K → Option V} {es : List (T × Bool)}
    {c : Pool T (World Unit T K V) Bool Error Unit}
    (hrun : (start settings (fun _ => ()) operation store).Run Clean es c)
    (hquiet : ∀ t, ¬ c.InFlight t) (k : K) : Coherent c.state k := by
  obtain ⟨duty, hinv, hstands⟩ := protocol.sound (g := fun _ _ => .none) Idle
    (fun t _ => Idle t) (fun t _ => Idle t) (fun _ => stable_idle)
    (fun t => triple_run hlocal (operation t))
    ⟨fun _ => .inl (.inl rfl), fun _ _ h => absurd h List.not_mem_nil⟩ (fun _ => rfl) hrun
  have hidle : ∀ t, duty t = fun _ => .none := fun t => by
    rcases (hstands t).idle hinv (hquiet t) with h | ⟨_, h⟩ | ⟨_, h⟩ <;> exact h
  rcases hinv.covered k with (hnone | hstore | ⟨t, hlive⟩) | hfailed
  · exact .inr fun row hrow => by rw [hnone] at hrow; cases hrow
  · exact .inr fun row hrow => Option.some.inj (hrow.symm.trans hstore)
  · rw [hidle t] at hlive
    exact hlive.elim
  · exact .inl hfailed

/-- A write and, after it, a load that fills the cache. -/
theorem coherent_of_clean_example :
    ∃ c, (start ⟨false, true, 10⟩ (fun _ => ())
        (fun t : Bool => if t then .load [()] else .write () (some 1)) fun _ => none).Run Clean
        (List.replicate 6 (false, true) ++ List.replicate 16 (true, true)) c ∧
      ((c.state.cell ()).value.map Row.value = some (some 1) ∧ Coherent c.state ()) := by
  obtain ⟨c, hexec, htest⟩ := (Option.any_eq_true _ _).mp (by decide :
    ((start ⟨false, true, 10⟩ (fun _ => ())
      (fun t : Bool => if t then .load [()] else .write () (some 1))
      fun _ => none).exec Clean (List.replicate 6 (false, true) ++ List.replicate 16 (true, true))).any
        fun c => (∀ t, ¬ c.InFlight t) ∧ (c.state.cell ()).value.map Row.value = some (some 1))
  obtain ⟨hquiet, hcell⟩ := of_decide_eq_true htest
  exact ⟨c, .of_exec hexec, hcell, coherent_of_clean rfl (.of_exec hexec) hquiet ()⟩

/-- The tasks of a run that lifts a failure too early. -/
def lostFailure : Fin 3 → Operation Unit Nat
  | 0 => .write () (some 1)
  | 1 => .load [()]
  | 2 => .write () (some 2)

/-- The write of 1 deletes the entry and pauses; a load caches 1; the write of 2 fails to delete
it and marks the key; the first write resumes and clears the failure. -/
theorem not_coherent :
    ¬ ∀ (es : List (Fin 3 × Bool)) (c : Pool (Fin 3) (World Unit (Fin 3) Unit Nat) Bool Error Unit),
      (start ⟨false, true, 10⟩ (fun _ => ()) lostFailure fun _ => none).Run (fun _ => True) es c →
      (∀ t, ¬ c.InFlight t) → Coherent c.state () := by
  intro h
  obtain ⟨c, hexec, htest⟩ := (Option.any_eq_true _ _).mp (by decide :
    ((start ⟨false, true, 10⟩ (fun _ => ()) lostFailure fun _ => none).exec (fun _ => True)
      (List.replicate 4 (0, true) ++ List.replicate 16 (1, true) ++
        [(2, true), (2, true), (2, true), (2, false), (2, true), (0, true), (0, true)])).any
      fun c => (∀ t, ¬ c.InFlight t) ∧
        (c.state.memory ()).hasCacheInvalidationFailure () = false ∧
        (c.state.cell ()).value = some ⟨some 1, 1⟩ ∧ c.state.store () = ⟨some 2, 2⟩)
  obtain ⟨hquiet, hnot, hcell, hstore⟩ := of_decide_eq_true htest
  rcases h _ c (.of_exec hexec) hquiet with hfailed | hrow
  · rw [hnot] at hfailed
    cases hfailed
  · have hstale := hrow _ hcell
    rw [hstore] at hstale
    cases hstale

end ActiveTs.EntityCache.Coherence
