import ActiveTs.Lib.Rely
import ActiveTs.EntityCache.Model

/-! # Recovery of a distributed cache

Several processes share a versioned cache. A value is never older than its version, because a
fill reads the version before it reads the store. So a process that clears a failure only when
the version came after the failed write never reads an older row from the cache again. -/

namespace ActiveTs.EntityCache

set_option linter.unusedSectionVars false

variable {P T K V : Type} [DecidableEq P] [DecidableEq T] [DecidableEq K]

/-! ## Failed writes -/

namespace Event

/-- The stamps that the writes of the task left at the key. -/
def writesOf (t : T) (k : K) (log : List (Event P T K)) : List Nat :=
  log.filterMap fun
    | .wrote t' k' stamp => if t' = t ∧ k' = k then some stamp else none
    | _ => none

/-- The stamps of the writes of the key whose invalidation failed in the process. -/
def failedWrites (p : P) (k : K) : List (Event P T K) → List Nat
  | [] => []
  | .marked t p' k' :: log =>
    if p' = p ∧ k' = k then writesOf t k log ++ failedWrites p k log else failedWrites p k log
  | _ :: log => failedWrites p k log

/-- A process clears the failure of a key only when the version in the cache was installed after
every write of the key whose invalidation failed in the process. No counter is exhausted. -/
def RecoveredClears (log : List (Event P T K)) : Prop :=
  EveryClear (fun _ p k installed log => ∀ stamp ∈ failedWrites p k log, stamp ≤ installed) log

instance : DecidablePred (RecoveredClears (P := P) (T := T) (K := K)) := decidableEveryClear

/-- An event that marks no key fails no write. -/
def isMark : Event P T K → Bool
  | .marked .. => true
  | _ => false

theorem failedWrites_marked (p p' : P) (k k' : K) (t : T) (log : List (Event P T K)) :
    failedWrites p k (.marked t p' k' :: log) =
      if p' = p ∧ k' = k then writesOf t k log ++ failedWrites p k log else failedWrites p k log := rfl

theorem failedWrites_cons {e : Event P T K} (he : e.isMark = false) (p : P) (k : K)
    (log : List (Event P T K)) : failedWrites p k (e :: log) = failedWrites p k log := by
  cases e with
  | marked => cases he
  | _ => rfl

theorem failedWrites_append {es : List (Event P T K)} (he : ∀ e ∈ es, e.isMark = false) (p : P)
    (k : K) (log : List (Event P T K)) : failedWrites p k (es ++ log) = failedWrites p k log := by
  induction es with
  | nil => rfl
  | cons e es ih =>
    rw [List.cons_append, failedWrites_cons (he e List.mem_cons_self),
      ih fun e' he' => he e' (List.mem_cons_of_mem _ he')]

theorem failedWrites_suffix (p : P) (k : K) (es log : List (Event P T K)) :
    failedWrites p k log ⊆ failedWrites p k (es ++ log) := by
  induction es with
  | nil => exact List.Subset.refl _
  | cons e es ih =>
    cases e with
    | marked t p' k' =>
      refine List.Subset.trans ih ?_
      rw [List.cons_append, failedWrites_marked]
      split
      · exact List.subset_append_right ..
      · exact List.Subset.refl _
    | _ => exact ih

/-- Every hit of a load took a row that is at least as new as each write whose invalidation had
failed in the process when the load began. -/
def FreshHits : List (Event P T K) → Prop
  | [] => True
  | .cacheHit t p k stamp :: log =>
    (∀ mid past, log = mid ++ .loadStarted t p :: past →
      ∀ n ∈ failedWrites p k past, n ≤ stamp) ∧ FreshHits log
  | _ :: log => FreshHits log

theorem FreshHits.of_append {es log : List (Event P T K)} (h : FreshHits (es ++ log)) :
    FreshHits log := by
  induction es with
  | nil => exact h
  | cons e es ih =>
    refine ih ?_
    cases e with
    | cacheHit => exact h.2
    | _ => exact h

/-- The event is none of a load. -/
def isPlain : Event P T K → Bool
  | .loadStarted .. => false
  | .cacheHit .. => false
  | _ => true

theorem ne_loadStarted {e : Event P T K} (he : e.isPlain) {t : T} {p : P} :
    e ≠ .loadStarted t p := by
  rintro rfl
  cases he

theorem FreshHits.append {es log : List (Event P T K)} (hes : ∀ e ∈ es, e.isPlain)
    (h : FreshHits log) : FreshHits (es ++ log) := by
  induction es with
  | nil => exact h
  | cons e es ih =>
    have htail := ih fun e' he' => hes e' (List.mem_cons_of_mem _ he')
    have he := hes e List.mem_cons_self
    cases e with
    | cacheHit => cases he
    | _ => exact htail

/-- What follows an event in a history is not changed by events of another kind before it. -/
theorem past_of_append {es log mid past : List (Event P T K)} {e : Event P T K}
    (hes : ∀ e' ∈ es, e' ≠ e) (h : es ++ log = mid ++ e :: past) :
    ∃ mid', log = mid' ++ e :: past := by
  induction es generalizing mid with
  | nil => exact ⟨mid, h⟩
  | cons e' es ih =>
    cases mid with
    | nil =>
      rw [List.cons_append, List.nil_append] at h
      exact absurd (List.cons.inj h).1 (hes e' List.mem_cons_self)
    | cons _ mid =>
      exact ih (fun e'' he => hes e'' (List.mem_cons_of_mem _ he)) (List.cons.inj h).2

end Event

/-! ## The protocol -/

namespace Recovery

/-- The history before the last load of a task began. -/
abbrev Began (P T K : Type) := T → List (Event P T K)

structure Inv (began : Began P T K) (w : World P T K V) : Prop where
  /-- A value is no older than its version. -/
  value : ∀ k row, (w.cell k).value = some row → (w.cell k).installed ≤ row.stamp
  installed : ∀ k, (w.cell k).installed ≤ (w.store k).stamp
  stamp : ∀ k, (w.store k).stamp ≤ w.writes
  version : ∀ k, (w.cell k).version < w.nextVersion
  /-- A failed write is reported, or the version is newer than the write. -/
  failed : ∀ p k, ∀ n ∈ Event.failedWrites p k w.log,
    (w.memory p).hasCacheInvalidationFailure k ∨ n ≤ (w.cell k).installed
  began : ∀ t p mid past, w.log = mid ++ .loadStarted t p :: past →
    ∀ k, Event.failedWrites p k past ⊆ Event.failedWrites p k (began t)
  hits : Event.FreshHits w.log

structure Evolves (x y : Began P T K × World P T K V) : Prop where
  next : x.2.nextVersion ≤ y.2.nextVersion
  installed : ∀ k, (x.2.cell k).installed ≤ (y.2.cell k).installed
  /-- A version that is replaced never comes back. -/
  version : ∀ k, ((y.2.cell k).version = (x.2.cell k).version ∧
    (y.2.cell k).installed = (x.2.cell k).installed) ∨ x.2.nextVersion ≤ (y.2.cell k).version

theorem Evolves.trans {x y z : Began P T K × World P T K V} (h : Evolves x y)
    (h' : Evolves y z) : Evolves x z := by
  refine ⟨Nat.le_trans h.next h'.next, fun k => Nat.le_trans (h.installed k) (h'.installed k),
    fun k => ?_⟩
  rcases h'.version k with ⟨hversion, hinstalled⟩ | hnew
  · rw [hversion, hinstalled]
    exact h.version k
  · exact .inr (Nat.le_trans h.next hnew)

def protocol : Protocol T (List (Event P T K)) (World P T K V) where
  inv := Inv
  evolves := Evolves
  refl _ := ⟨Nat.le_refl _, fun _ => Nat.le_refl _, fun _ => .inl ⟨rfl, rfl⟩⟩
  trans := .trans

abbrev Moves (t : T) (began : Began P T K) (w : World P T K V) (began' : Began P T K)
    (w' : World P T K V) : Prop :=
  protocol.Moves t began w began' w'

variable {began : Began P T K} {w w' : World P T K V} {t : T} {p : P}

/-- A step that leaves the versions alone and records no event of a load. -/
theorem moves_plain (h : Inv began w) (es : List (Event P T K)) (hlog : w'.log = es ++ w.log)
    (hes : ∀ e ∈ es, e.isPlain) (hcell : ∀ k, (w'.cell k).version = (w.cell k).version ∧
      (w'.cell k).installed = (w.cell k).installed)
    (hnext : w'.nextVersion = w.nextVersion)
    (hvalue : ∀ k row, (w'.cell k).value = some row → (w.cell k).value = some row ∨
      (w.cell k).installed ≤ row.stamp)
    (hstore : ∀ k, (w.store k).stamp ≤ (w'.store k).stamp ∧ (w'.store k).stamp ≤ w'.writes)
    (hfailed : ∀ p k, ∀ n ∈ Event.failedWrites p k (es ++ w.log),
      (w'.memory p).hasCacheInvalidationFailure k ∨ n ≤ (w.cell k).installed) :
    Moves t began w began w' := by
  refine ⟨⟨fun k row hrow => ?_, fun k => ?_, fun k => (hstore k).2, fun k => ?_,
    fun p k n hn => ?_, fun u q mid past hpast => ?_, hlog ▸ h.hits.append hes⟩,
    fun _ _ => rfl, Nat.le_of_eq hnext.symm, fun k => Nat.le_of_eq (hcell k).2.symm,
    fun k => .inl (hcell k)⟩
  · rw [(hcell k).2]
    rcases hvalue k row hrow with hold | hnew
    · exact h.value k row hold
    · exact hnew
  · rw [(hcell k).2]
    exact Nat.le_trans (h.installed k) (hstore k).1
  · rw [(hcell k).1, hnext]
    exact h.version k
  · rw [(hcell k).2]
    exact hfailed p k n (hlog ▸ hn)
  · rw [hlog] at hpast
    obtain ⟨mid', hmid⟩ := Event.past_of_append (fun e he => Event.ne_loadStarted (hes e he)) hpast
    exact h.began u q mid' past hmid

/-- A step that changes neither the cache nor the store. -/
theorem moves_memory (h : Inv began w) (es : List (Event P T K)) (hlog : w'.log = es ++ w.log)
    (hes : ∀ e ∈ es, e.isPlain) (hcell : w'.cell = w.cell)
    (hnext : w'.nextVersion = w.nextVersion) (hstore : w'.store = w.store)
    (hwrites : w'.writes = w.writes)
    (hfailed : ∀ p k, ∀ n ∈ Event.failedWrites p k (es ++ w.log),
      (w'.memory p).hasCacheInvalidationFailure k ∨ n ≤ (w.cell k).installed) :
    Moves t began w began w' :=
  moves_plain h es hlog hes (fun k => by rw [hcell]; exact ⟨rfl, rfl⟩) hnext
    (fun k row hrow => .inl (hcell ▸ hrow))
    (fun k => by rw [hstore, hwrites]; exact ⟨Nat.le_refl _, h.stamp k⟩) hfailed

/-- A process that keeps its failures does not lose those of another. -/
theorem failure_setMemory {m : Memory K} {p' : P} {k : K}
    (hkeep : (w.memory p).hasCacheInvalidationFailure k → m.hasCacheInvalidationFailure k)
    (h : (w.memory p').hasCacheInvalidationFailure k) :
    ((w.setMemory p m).memory p').hasCacheInvalidationFailure k := by
  simp only [World.setMemory]
  rcases eq_or_ne p' p with rfl | hne
  · rw [Function.update_self]
    exact hkeep h
  · rw [Function.update_of_ne hne]
    exact h

theorem moves_bump (h : Inv began w) {k : K} {m : Memory K}
    (hbump : (w.memory p).bumpCacheEpoch k = some m) :
    Moves t began w began (w.setMemory p m) := by
  refine moves_memory h [] rfl (by simp) rfl rfl rfl rfl fun p' k' n hn => ?_
  refine (h.failed p' k' n hn).imp_left (failure_setMemory fun hfail => ?_)
  rw [Memory.hasCacheInvalidationFailure, (Memory.bumpCacheEpoch_some hbump).1]
  exact hfail

/-- A mark reports the write that failed. -/
theorem moves_mark (h : Inv began w) (k : K) :
    Moves t began w began ((w.setMemory p
      ((w.memory p).markCacheInvalidationFailure k).1).record (.marked t p k)) := by
  refine moves_memory h [.marked t p k] rfl (List.forall_mem_singleton.mpr rfl) rfl rfl rfl rfl
    fun p' k' n hn => ?_
  rw [List.singleton_append, Event.failedWrites_marked] at hn
  split at hn
  · next heq =>
    obtain ⟨rfl, rfl⟩ := heq
    refine .inl ?_
    simp only [World.record, World.setMemory, Function.update_self]
    exact Memory.hasCacheInvalidationFailure_mark_self k
  · exact (h.failed p' k' n hn).imp_left
      (failure_setMemory fun hfail => Memory.hasCacheInvalidationFailure_mark hfail k)

/-- A clear whose version came after the failed writes. -/
theorem moves_clear (h : Inv began w) {k : K}
    (hk : ∀ n ∈ Event.failedWrites p k w.log, n ≤ (w.cell k).installed) :
    Moves t began w began (w.clear p t k) := by
  refine moves_memory h [.cleared t p k (w.cell k).installed] rfl (List.forall_mem_singleton.mpr rfl)
    rfl rfl rfl rfl fun p' k' n hn => ?_
  have hn : n ∈ Event.failedWrites p' k' w.log := hn
  rcases eq_or_ne k k' with rfl | hne
  · rcases eq_or_ne p' p with rfl | hp
    · exact .inr (hk n hn)
    · refine (h.failed p' k n hn).imp_left fun hfail => ?_
      simp only [World.clear, World.record, World.setMemory, Function.update_of_ne hp]
      exact hfail
  · exact (h.failed p' k' n hn).imp_left
      (failure_setMemory fun hfail => Memory.hasCacheInvalidationFailure_clear hfail hne)

theorem effects_plain (t : T) (keys : List K) :
    ∀ e ∈ (effects t keys : List (Event P T K)), e.isPlain ∧ e.isMark = false := by
  intro e he
  obtain ⟨k, _, rfl⟩ := List.mem_map.mp he
  exact ⟨rfl, rfl⟩

/-- A set of rows that are no older than the versions they replace. -/
theorem moves_set (h : Inv began w) {entries : List (K × Row V)}
    (hrow : ∀ r ∈ entries, (w.cell r.1).installed ≤ r.2.stamp) :
    Moves t began w began (w.setMany t entries) := by
  have hcell : ∀ k, ((w.setMany t entries).cell k).version = (w.cell k).version ∧
      ((w.setMany t entries).cell k).installed = (w.cell k).installed := by
    intro k
    simp only [World.setMany]
    split
    · exact ⟨rfl, rfl⟩
    · exact ⟨rfl, rfl⟩
  refine moves_plain h _ rfl (fun e he => (effects_plain t _ e he).1) hcell rfl
    (fun k row hvalue => ?_) (fun k => ⟨Nat.le_refl _, h.stamp k⟩) fun p' k' n hn => ?_
  · simp only [World.setMany] at hvalue
    cases hlookup : JsMap.lookup k entries with
    | none =>
      rw [hlookup] at hvalue
      exact .inl hvalue
    | some row' =>
      rw [hlookup] at hvalue
      cases hvalue
      exact .inr (hrow (k, row) (JsMap.mem_of_lookup hlookup))
  · rw [Event.failedWrites_append fun e he => (effects_plain t _ e he).2] at hn
    exact h.failed p' k' n hn

theorem moves_write (h : Inv began w) (k : K) (value : Option V) :
    Moves t began w began (w.write t k value) := by
  refine moves_plain h [.wrote t k (w.writes + 1)] rfl (List.forall_mem_singleton.mpr rfl)
    (fun _ => ⟨rfl, rfl⟩) rfl (fun _ _ hrow => .inl hrow) (fun k' => ?_)
    fun p' k' n hn => h.failed p' k' n hn
  simp only [World.write]
  rcases eq_or_ne k' k with rfl | hne
  · rw [Function.update_self]
    exact ⟨Nat.le_succ_of_le (h.stamp k'), Nat.le_refl _⟩
  · rw [Function.update_of_ne hne]
    exact ⟨Nat.le_refl _, Nat.le_succ_of_le (h.stamp k')⟩

/-- A key that gets a fresh version without a value, or keeps its version and keeps or loses its
value. -/
def Renewed (w w' : World P T K V) (k : K) : Prop :=
  (w'.cell k = ⟨none, w.nextVersion, (w.store k).stamp⟩) ∨
    (w'.cell k).version = (w.cell k).version ∧ (w'.cell k).installed = (w.cell k).installed ∧
      ∀ row, (w'.cell k).value = some row → (w.cell k).value = some row

theorem moves_install (h : Inv began w) (es : List (Event P T K)) (hlog : w'.log = es ++ w.log)
    (hes : ∀ e ∈ es, e.isPlain ∧ e.isMark = false) (hmemory : w'.memory = w.memory)
    (hstore : w'.store = w.store) (hwrites : w'.writes = w.writes)
    (hnext : w'.nextVersion = w.nextVersion + 1) (hcell : ∀ k, Renewed w w' k) :
    Moves t began w began w' := by
  have hinstalled : ∀ k, (w.cell k).installed ≤ (w'.cell k).installed := by
    intro k
    rcases hcell k with hk | ⟨_, hk, _⟩
    · rw [hk]
      exact h.installed k
    · exact Nat.le_of_eq hk.symm
  refine ⟨⟨fun k row hrow => ?_, fun k => ?_, fun k => ?_, fun k => ?_, fun p' k n hn => ?_,
    fun u q mid past hpast => ?_, hlog ▸ h.hits.append fun e he => (hes e he).1⟩, fun _ _ => rfl,
    hnext ▸ Nat.le_succ _, hinstalled, fun k => ?_⟩
  · rcases hcell k with hk | ⟨_, hk, hvalue⟩
    · rw [hk] at hrow
      cases hrow
    · rw [hk]
      exact h.value k row (hvalue row hrow)
  · rw [hstore]
    rcases hcell k with hk | ⟨_, hk, _⟩
    · exact Nat.le_of_eq (congrArg Cell.installed hk)
    · rw [hk]
      exact h.installed k
  · rw [hstore, hwrites]
    exact h.stamp k
  · rw [hnext]
    rcases hcell k with hk | ⟨hk, _, _⟩
    · exact Nat.lt_succ_of_le (Nat.le_of_eq (congrArg Cell.version hk))
    · rw [hk]
      exact Nat.lt_succ_of_lt (h.version k)
  · rw [hlog, Event.failedWrites_append fun e he => (hes e he).2] at hn
    rw [hmemory]
    exact (h.failed p' k n hn).imp_right fun hle => Nat.le_trans hle (hinstalled k)
  · rw [hlog] at hpast
    obtain ⟨mid', hmid⟩ := Event.past_of_append (fun e he => Event.ne_loadStarted (hes e he).1) hpast
    exact h.began u q mid' past hmid
  · rcases hcell k with hk | ⟨hversion, hk, _⟩
    · exact .inr (Nat.le_of_eq (congrArg Cell.version hk).symm)
    · exact .inl ⟨hversion, hk⟩

theorem moves_invalidate (h : Inv began w) (keys : List K) :
    Moves t began w began (w.invalidateMany t keys) := by
  refine moves_install h _ rfl (effects_plain t keys) rfl rfl rfl rfl fun k => ?_
  simp only [Renewed, World.invalidateMany]
  split
  · exact .inl rfl
  · exact .inr ⟨rfl, rfl, fun _ hrow => hrow⟩

theorem moves_expire (h : Inv began w) (k : K) (version : Bool) :
    Moves t began w began (w.expire k version) := by
  refine moves_install h [] rfl (by simp) rfl rfl rfl rfl fun k' => ?_
  simp only [Renewed, World.expire]
  rcases eq_or_ne k' k with rfl | hne
  · rw [Function.update_self]
    cases version
    · exact .inr ⟨rfl, rfl, nofun⟩
    · exact .inl rfl
  · rw [Function.update_of_ne hne]
    exact .inr ⟨rfl, rfl, fun _ hrow => hrow⟩

/-- A load begins: the failures up to now are those it must respect. -/
theorem moves_begin (h : Inv began w) (p : P) :
    Moves t began w (Function.update began t w.log) (w.record (.loadStarted t p)) := by
  refine ⟨⟨h.value, h.installed, h.stamp, h.version, fun p' k n hn => h.failed p' k n hn,
    fun u q mid past hpast k => ?_, h.hits⟩, fun u hu => Function.update_of_ne hu ..,
    Nat.le_refl _, fun _ => Nat.le_refl _, fun _ => .inl ⟨rfl, rfl⟩⟩
  cases mid with
  | nil =>
    cases hpast
    rw [Function.update_self]
    exact List.Subset.refl _
  | cons e mid =>
    have hlog : w.log = mid ++ .loadStarted u q :: past := (List.cons.inj hpast).2
    rcases eq_or_ne u t with rfl | hu
    · rw [Function.update_self, hlog]
      have hsuffix := Event.failedWrites_suffix q k (mid ++ [.loadStarted u q]) past
      rwa [List.append_assoc, List.singleton_append] at hsuffix
    · rw [Function.update_of_ne hu]
      exact h.began u q mid past hlog k

/-- A load takes rows that are new enough. -/
theorem moves_hits (h : Inv began w) (p : P) (rows : List (K × Row V))
    (hrows : ∀ r ∈ rows, ∀ n ∈ Event.failedWrites p r.1 (began t), n ≤ r.2.stamp) :
    Moves t began w began
      { w with log := rows.map (fun r => .cacheHit t p r.1 r.2.stamp) ++ w.log } := by
  induction rows generalizing w with
  | nil => exact .refl h
  | cons r rows ih =>
    have hmoves := ih h fun r' hr' => hrows r' (List.mem_cons_of_mem _ hr')
    refine hmoves.trans ⟨⟨h.value, h.installed, h.stamp, h.version, hmoves.inv.failed,
      fun u q mid past hpast k => ?_, fun mid past hpast n hn => ?_, hmoves.inv.hits⟩,
      fun _ _ => rfl, Nat.le_refl _, fun _ => Nat.le_refl _, fun _ => .inl ⟨rfl, rfl⟩⟩
    · cases mid with
      | nil => cases hpast
      | cons e mid => exact hmoves.inv.began u q mid past (List.cons.inj hpast).2 k
    · exact hrows r List.mem_cons_self n (hmoves.inv.began t p mid past hpast r.1 hn)

end Recovery

end ActiveTs.EntityCache
