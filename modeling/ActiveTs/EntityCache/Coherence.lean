import ActiveTs.Lib.Rely
import ActiveTs.EntityCache.Model

/-! # Coherence of a local cache

One process fills an unversioned cache and invalidates it after its writes. A key is fresh when
its entry agrees with the store, or when some task in flight still owes it a deletion. Every step
keeps a key fresh or marks it, and a mark is only lifted from a fresh key, as long as no task
lifts a mark that was set after its own change of the cache. -/

namespace ActiveTs.EntityCache

variable {T K V : Type} [DecidableEq K]

/-! ## Clean clears -/

namespace Event

def marks {P : Type} (k : K) : Event P T K → Bool
  | .marked _ _ k' => k' = k
  | _ => false

theorem any_marks_effects {P : Type} (t : T) (k : K) (keys : List K) :
    (effects t keys : List (Event P T K)).any (·.marks k) = false := by
  simp [effects, marks]

variable [DecidableEq T]

/-- The key was marked after the last change of it in the cache by the task. -/
def markedSince (t : T) (k : K) : List (Event Unit T K) → Bool
  | [] => false
  | e :: log => if e = .effected t k then false else e.marks k || markedSince t k log

/-- No task clears the failure of a key that was marked after the task's own last change of the
key in the cache, and no counter is exhausted. -/
def CleanClears (log : List (Event Unit T K)) : Prop :=
  EveryClear (fun t _ k _ log => markedSince t k log = false) log

instance : DecidablePred (CleanClears (T := T) (K := K)) := decidableEveryClear

theorem markedSince_append {t : T} {k : K} {es log : List (Event Unit T K)}
    (h : .effected t k ∉ es) :
    markedSince t k (es ++ log) = (es.any (·.marks k) || markedSince t k log) := by
  induction es with
  | nil => rfl
  | cons e es ih =>
    rw [List.mem_cons, not_or] at h
    rw [List.cons_append, markedSince, if_neg (Ne.symm h.1), ih h.2, List.any_cons, Bool.or_assoc]

end Event

/-! ## Duties -/

/-- What a task in flight still has to do for a key. -/
inductive Duty where
  | none
  /-- The row is written, and the epoch will be bumped. -/
  | wrote
  /-- The entry will be deleted, or the key marked. -/
  | deleting
  /-- The row is cached, and the epoch will be compared with the noted one. -/
  | published (epoch : Nat)

def Duty.Live (d : Duty) (m : Memory K) (k : K) : Prop :=
  match d with
  | .none => False
  | .wrote => True
  | .deleting => True
  | .published epoch => epoch < m.cacheEpoch k

abbrev Duties (T K : Type) := T → K → Duty

namespace Coherence

/-- The entry agrees with the store, or a task takes care of it. -/
def Fresh (duty : Duties T K) (w : World Unit T K V) (k : K) : Prop :=
  (w.cell k).value = none ∨ (w.cell k).value = some (w.store k) ∨
    ∃ t, (duty t k).Live (w.memory ()) k

/-- A row that may be cached by a fill that noted the epoch: it is the row of the store, or a
bump of the epoch came or is to come. -/
def Current (duty : Duties T K) (w : World Unit T K V) (k : K) (row : Row V) (epoch : Nat) :
    Prop :=
  row = w.store k ∨ (∃ t, duty t k = .wrote) ∨ epoch < (w.memory ()).cacheEpoch k

variable {duty duty' : Duties T K} {w w' : World Unit T K V} {t : T}

theorem live_mono {d : Duty} {m m' : Memory K} {k : K} (h : d.Live m k)
    (hle : m.cacheEpoch k ≤ m'.cacheEpoch k) : d.Live m' k := by
  cases d with
  | published epoch => exact Nat.lt_of_lt_of_le h hle
  | _ => exact h

theorem Fresh.mono {k : K} (h : Fresh duty w k) (hcell : w'.cell k = w.cell k)
    (hstore : w'.store k = w.store k)
    (hlive : ∀ u, (duty u k).Live (w.memory ()) k → (duty' u k).Live (w'.memory ()) k) :
    Fresh duty' w' k := by
  rcases h with h | h | ⟨u, h⟩
  · exact .inl (hcell ▸ h)
  · exact .inr (.inl (hcell ▸ hstore ▸ h))
  · exact .inr (.inr ⟨u, hlive u h⟩)

/-- What a task may do to its duties when neither the cache nor the store changes: a live duty
stays live. -/
theorem live_of_own (hduty : ∀ u, u ≠ t → duty' u = duty u) {k : K}
    (hepochs : (w.memory ()).cacheEpoch k ≤ (w'.memory ()).cacheEpoch k)
    (hown : (duty t k).Live (w.memory ()) k → (duty' t k).Live (w'.memory ()) k) (u : T)
    (h : (duty u k).Live (w.memory ()) k) : (duty' u k).Live (w'.memory ()) k := by
  rcases eq_or_ne u t with rfl | hu
  · exact hown h
  · rw [hduty u hu]
    exact live_mono h hepochs

/-- Rows that may be cached stay so when the store stays and no write duty is dropped. -/
theorem current_of_own (hduty : ∀ u, u ≠ t → duty' u = duty u) {k : K} {row : Row V}
    {epoch : Nat} (hstore : w'.store k = w.store k)
    (hepochs : (w.memory ()).cacheEpoch k ≤ (w'.memory ()).cacheEpoch k)
    (hown : duty t k = .wrote → duty' t k = .wrote ∨ epoch < (w'.memory ()).cacheEpoch k)
    (h : Current duty w k row epoch) : Current duty' w' k row epoch := by
  rcases h with h | ⟨u, h⟩ | h
  · exact .inl (hstore ▸ h)
  · rcases eq_or_ne u t with rfl | hu
    · rcases hown h with h | h
      · exact .inr (.inl ⟨u, h⟩)
      · exact .inr (.inr h)
    · exact .inr (.inl ⟨u, (hduty u hu) ▸ h⟩)
  · exact .inr (.inr (Nat.lt_of_lt_of_le h hepochs))

/-! ## The protocol -/

/-- What every step respects, also for the task that takes it. -/
structure Evolves (x y : Duties T K × World Unit T K V) : Prop where
  epochs : ∀ k, (x.2.memory ()).cacheEpoch k ≤ (y.2.memory ()).cacheEpoch k
  log : ∀ e ∈ x.2.log, e ∈ y.2.log
  current : ∀ k row epoch, epoch ≤ (x.2.memory ()).cacheEpoch k →
    Current x.1 x.2 k row epoch → Current y.1 y.2 k row epoch

theorem Evolves.refl (x : Duties T K × World Unit T K V) : Evolves x x :=
  ⟨fun _ => Nat.le_refl _, fun _ h => h, fun _ _ _ _ h => h⟩

theorem Evolves.trans {x y z : Duties T K × World Unit T K V} (h : Evolves x y)
    (h' : Evolves y z) : Evolves x z :=
  ⟨fun k => Nat.le_trans (h.epochs k) (h'.epochs k), fun e he => h'.log e (h.log e he),
    fun k row epoch hle hc =>
      h'.current k row epoch (Nat.le_trans hle (h.epochs k)) (h.current k row epoch hle hc)⟩

variable [DecidableEq T]

structure Inv (duty : Duties T K) (w : World Unit T K V) : Prop where
  covered : ∀ k, Fresh duty w k ∨ (w.memory ()).hasCacheInvalidationFailure k
  effected : ∀ t k, .effected t k ∈ w.log → Fresh duty w k ∨ Event.markedSince t k w.log

/-- The protocol of the tasks of one process. -/
def protocol : Protocol T (K → Duty) (World Unit T K V) where
  inv := Inv
  evolves := Evolves
  refl := .refl
  trans := .trans

abbrev Moves (t : T) (duty : Duties T K) (w : World Unit T K V) (duty' : Duties T K)
    (w' : World Unit T K V) : Prop :=
  (protocol (V := V)).Moves t duty w duty' w'

/-- The invariant after a step: fresh keys stay fresh or are marked, the cache changes of the
step leave fresh keys, and failures are lifted from fresh keys only. -/
theorem Inv.next (h : Inv duty w) (es : List (Event Unit T K)) (hlog : w'.log = es ++ w.log)
    (hfresh : ∀ k, Fresh duty w k → Fresh duty' w' k ∨ es.any (·.marks k))
    (heffected : ∀ t k, .effected t k ∈ es → Fresh duty' w' k)
    (hmarked : ∀ k, es.any (·.marks k) → (w'.memory ()).hasCacheInvalidationFailure k)
    (hfailure : ∀ k, (w.memory ()).hasCacheInvalidationFailure k →
      Fresh duty' w' k ∨ (w'.memory ()).hasCacheInvalidationFailure k) : Inv duty' w' := by
  refine ⟨fun k => ?_, fun t k hmem => ?_⟩
  · rcases h.covered k with hk | hk
    · rcases hfresh k hk with hk' | hmark
      · exact .inl hk'
      · exact .inr (hmarked k hmark)
    · exact hfailure k hk
  · rcases Classical.em (.effected t k ∈ es) with hin | hin
    · exact .inl (heffected t k hin)
    · rw [hlog, Event.markedSince_append hin, Bool.or_eq_true]
      rw [hlog, List.mem_append] at hmem
      rcases h.effected t k (hmem.resolve_left hin) with hk | hk
      · rcases hfresh k hk with hk' | hmark
        · exact .inl hk'
        · exact .inr (.inl hmark)
      · exact .inr (.inr hk)

/-! ## Single transformations -/

/-- A step of a task that changes only its own duties, and leaves rows that may be cached as
they are. -/
theorem moves (es : List (Event Unit T K)) (hinv : Inv duty' w')
    (hduty : ∀ u, u ≠ t → duty' u = duty u)
    (hepochs : ∀ k, (w.memory ()).cacheEpoch k ≤ (w'.memory ()).cacheEpoch k)
    (hlog : w'.log = es ++ w.log)
    (hcurrent : ∀ k row epoch, epoch ≤ (w.memory ()).cacheEpoch k →
      Current duty w k row epoch → Current duty' w' k row epoch) :
    Moves t duty w duty' w' :=
  ⟨hinv, hduty, hepochs, fun _ he => hlog ▸ List.mem_append_right es he, hcurrent⟩

theorem moves_bump (hinv : Inv duty w) {k : K} {m : Memory K}
    (hbump : (w.memory ()).bumpCacheEpoch k = some m) (hduty : ∀ u, u ≠ t → duty' u = duty u)
    (hown : ∀ k', duty' t k' = duty t k' ∨ k' = k ∧ duty' t k' = .deleting) :
    Moves t duty w duty' (w.setMemory () m) := by
  obtain ⟨hfailures, hlt, hle⟩ := Memory.bumpCacheEpoch_some hbump
  have hle : ∀ k', (w.memory ()).cacheEpoch k' ≤ ((w.setMemory () m).memory ()).cacheEpoch k' := hle
  refine moves [] (hinv.next [] rfl (fun k' hk => .inl ?_) (by simp) (by simp)
    fun k' hk => .inr ?_) hduty hle rfl fun k' row epoch hepoch => ?_
  · refine hk.mono rfl rfl (live_of_own hduty (hle k') fun hlive => ?_)
    rcases hown k' with hown | ⟨_, hown⟩
    · rw [hown]
      exact live_mono hlive (hle k')
    · rw [hown]
      exact trivial
  · rw [Memory.hasCacheInvalidationFailure] at hk ⊢
    exact hfailures ▸ hk
  · refine current_of_own hduty rfl (hle k') fun hwrote => ?_
    rcases hown k' with hown | ⟨rfl, _⟩
    · exact .inl (hown.trans hwrote)
    · exact .inr (Nat.lt_of_le_of_lt hepoch hlt)

/-- Marking a key settles what the task still had to do for it. -/
theorem moves_mark (hinv : Inv duty w) (k : K) (hduty : ∀ u, u ≠ t → duty' u = duty u)
    (hown : ∀ k', duty' t k' = duty t k' ∨ k' = k ∧ duty t k' ≠ .wrote) :
    Moves t duty w duty' ((w.setMemory ()
      ((w.memory ()).markCacheInvalidationFailure k).1).record (.marked t () k)) := by
  refine moves [.marked t () k] (hinv.next [.marked t () k] rfl
    (fun k' hk => ?_) (by simp) (fun k' hk => ?_) fun k' hk => .inr ?_) hduty
    (fun _ => Nat.le_refl _) rfl fun k' row epoch _ => ?_
  · rcases hown k' with hown | ⟨rfl, _⟩
    · refine .inl (hk.mono rfl rfl (live_of_own hduty (Nat.le_refl _) fun hlive => ?_))
      rw [hown]
      exact hlive
    · exact .inr (by simp [Event.marks])
  · have hk : k = k' := by simpa [Event.marks] using hk
    subst hk
    exact Memory.hasCacheInvalidationFailure_mark_self k
  · exact Memory.hasCacheInvalidationFailure_mark hk k
  · refine current_of_own hduty rfl (Nat.le_refl _) fun hwrote => .inl ?_
    rcases hown k' with hown | ⟨_, hne⟩
    · exact hown.trans hwrote
    · exact absurd hwrote hne

/-- Clearing a fresh key. -/
theorem moves_clear (hinv : Inv duty w) {k : K} (hk : Fresh duty w k) :
    Moves t duty w duty (w.clear () t k) := by
  have hsame : ∀ k', Fresh duty w k' → Fresh duty (w.clear () t k) k' :=
    fun k' hk' => hk'.mono rfl rfl fun _ h => h
  refine moves [.cleared t () k (w.cell k).installed]
    (hinv.next [.cleared t () k (w.cell k).installed] rfl
      (fun k' hk' => .inl (hsame k' hk')) (by simp) (by simp [Event.marks]) fun k' hk' => ?_)
    (fun _ _ => rfl) (fun _ => Nat.le_refl _) rfl
    fun _ _ _ _ => current_of_own (t := t) (fun _ _ => rfl) rfl (Nat.le_refl _) .inl
  rcases eq_or_ne k k' with rfl | hne
  · exact .inl (hsame k hk)
  · exact .inr (Memory.hasCacheInvalidationFailure_clear hk' hne)

/-- Deleting keys settles what the task still had to do for them. -/
theorem moves_delete (hinv : Inv duty w) (keys : List K)
    (hduty : ∀ u, u ≠ t → duty' u = duty u)
    (hown : ∀ k, duty' t k = duty t k ∨ k ∈ keys ∧ duty t k ≠ .wrote) :
    Moves t duty w duty' (w.deleteMany t keys) := by
  have hgone : ∀ k ∈ keys, Fresh duty' (w.deleteMany t keys) k := fun k hk =>
    .inl (by simp [World.deleteMany, hk])
  refine moves _ (hinv.next _ rfl (fun k hk => .inl ?_) (fun u k he => ?_)
    (by simp [Event.any_marks_effects]) fun k hk => .inr hk) hduty (fun _ => Nat.le_refl _) rfl
    fun k row epoch _ => ?_
  · rcases Classical.em (k ∈ keys) with hin | hout
    · exact hgone k hin
    · refine hk.mono (by simp [World.deleteMany, hout]) rfl
        (live_of_own hduty (Nat.le_refl _) fun hlive => ?_)
      rcases hown k with hown | ⟨hin, _⟩
      · rw [hown]
        exact hlive
      · exact absurd hin hout
  · exact hgone k (mem_effects.mp he).2
  · refine current_of_own hduty rfl (Nat.le_refl _) fun hwrote => .inl ?_
    rcases hown k with hown | ⟨_, hne⟩
    · exact hown.trans hwrote
    · exact absurd hwrote hne

/-- Setting rows that may be cached: the task owes the comparison of the epochs. -/
theorem moves_set (hinv : Inv duty w) {entries : List (K × Row V)}
    (hduty : ∀ u, u ≠ t → duty' u = duty u)
    (hset : ∀ k row, JsMap.lookup k entries = some row → duty t k = .none ∧
      ∃ epoch, duty' t k = .published epoch ∧ Current duty w k row epoch)
    (hown : ∀ k, JsMap.lookup k entries = none → duty' t k = duty t k) :
    Moves t duty w duty' (w.setMany t entries) := by
  have hfresh : ∀ k row, JsMap.lookup k entries = some row →
      Fresh duty' (w.setMany t entries) k := by
    intro k row hrow
    have hcell : ((w.setMany t entries).cell k).value = some row := by
      simp [World.setMany, hrow]
    obtain ⟨hnone, epoch, hpub, hcur | ⟨u, hwrote⟩ | hlt⟩ := hset k row hrow
    · exact .inr (.inl (hcell.trans (congrArg some hcur)))
    · have hu : u ≠ t := fun he => by
        rw [he, hnone] at hwrote
        cases hwrote
      exact .inr (.inr ⟨u, by rw [hduty u hu, hwrote]; exact trivial⟩)
    · exact .inr (.inr ⟨t, by rw [hpub]; exact hlt⟩)
  refine moves _ (hinv.next _ rfl (fun k hk => .inl ?_) (fun u k he => ?_)
    (by simp [Event.any_marks_effects]) fun k hk => .inr hk) hduty (fun _ => Nat.le_refl _) rfl
    fun k row epoch _ => ?_
  · cases hrow : JsMap.lookup k entries with
    | some row => exact hfresh k row hrow
    | none =>
      refine hk.mono (by simp [World.setMany, hrow]) rfl
        (live_of_own hduty (Nat.le_refl _) fun hlive => ?_)
      rw [hown k hrow]
      exact hlive
  · have hin := (mem_effects.mp he).2
    cases hrow : JsMap.lookup k entries with
    | some row => exact hfresh k row hrow
    | none => exact absurd hin (JsMap.lookup_eq_none.mp hrow)
  · refine current_of_own hduty rfl (Nat.le_refl _) fun hwrote => .inl ?_
    cases hrow : JsMap.lookup k entries with
    | some row =>
      rw [(hset k row hrow).1] at hwrote
      cases hwrote
    | none => exact (hown k hrow).trans hwrote

/-- A write of the store: the task owes the bump and the deletion. -/
theorem moves_write (hinv : Inv duty w) {k : K} {value : Option V}
    (hduty : ∀ u, u ≠ t → duty' u = duty u) (hk : duty' t k = .wrote)
    (hown : ∀ k', k' ≠ k → duty' t k' = duty t k') :
    Moves t duty w duty' (w.write t k value) := by
  have hother : ∀ k', k' ≠ k → (w.write t k value).store k' = w.store k' := fun k' hne =>
    Function.update_of_ne hne ..
  refine moves [.wrote t k (w.writes + 1)]
    (hinv.next [.wrote t k (w.writes + 1)] rfl (fun k' hk' => .inl ?_) (by simp)
      (by simp [Event.marks]) fun k' hk' => .inr hk')
    hduty (fun _ => Nat.le_refl _) rfl fun k' row epoch _ hcur => ?_
  · rcases eq_or_ne k' k with rfl | hne
    · exact .inr (.inr ⟨t, by rw [hk]; exact trivial⟩)
    · refine hk'.mono rfl (hother k' hne) (live_of_own hduty (Nat.le_refl _) fun hlive => ?_)
      rw [hown k' hne]
      exact hlive
  · rcases eq_or_ne k' k with rfl | hne
    · exact .inr (.inl ⟨t, hk⟩)
    · refine current_of_own hduty (hother k' hne) (Nat.le_refl _) (fun hwrote => .inl ?_) hcur
      rw [hown k' hne, hwrote]

/-- An entry that is gone is fresh. -/
theorem moves_expire (hinv : Inv duty w) (k : K) (version : Bool) :
    Moves t duty w duty (w.expire k version) := by
  refine moves [] (hinv.next [] rfl (fun k' hk => .inl ?_) (by simp) (by simp)
    fun k' hk => .inr hk) (fun _ _ => rfl) (fun _ => Nat.le_refl _) rfl
    fun _ _ _ _ => current_of_own (t := t) (fun _ _ => rfl) rfl (Nat.le_refl _) .inl
  rcases eq_or_ne k' k with rfl | hne
  · refine .inl ?_
    simp only [World.expire, Function.update_self]
    split <;> rfl
  · exact hk.mono (Function.update_of_ne hne ..) rfl fun _ h => h

/-- A step that only records events that change nothing. -/
theorem moves_record (hinv : Inv duty w) (es : List (Event Unit T K))
    (heffected : ∀ u k, .effected u k ∉ es) (hmarks : ∀ k, es.any (·.marks k) = false) :
    Moves t duty w duty { w with log := es ++ w.log } :=
  moves es
    (hinv.next es rfl (fun _ hk => .inl (hk.mono rfl rfl fun _ h => h))
      (fun u k he => absurd he (heffected u k))
      (fun k hk => absurd ((hmarks k).symm.trans hk) Bool.false_ne_true) fun _ hk => .inr hk)
    (fun _ _ => rfl) (fun _ => Nat.le_refl _) rfl
    fun _ _ _ _ => current_of_own (t := t) (fun _ _ => rfl) rfl (Nat.le_refl _) .inl

/-- A task changes its mind about its duties; a live duty stays live. -/
theorem moves_relabel (hinv : Inv duty w) (hduty : ∀ u, u ≠ t → duty' u = duty u)
    (hown : ∀ k, duty t k ≠ .wrote ∧
      ((duty t k).Live (w.memory ()) k → (duty' t k).Live (w.memory ()) k)) :
    Moves t duty w duty' w :=
  moves []
    (hinv.next [] rfl
      (fun k hk => .inl (hk.mono rfl rfl (live_of_own hduty (Nat.le_refl _) (hown k).2)))
      (by simp) (by simp) fun k hk => .inr hk)
    hduty (fun _ => Nat.le_refl _) rfl
    fun k _ _ _ => current_of_own hduty rfl (Nat.le_refl _)
      fun hwrote => absurd hwrote (hown k).1

end Coherence

end ActiveTs.EntityCache
