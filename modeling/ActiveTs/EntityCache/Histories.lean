import ActiveTs.EntityCache.Tables
import ActiveTs.Lib.Steps

/-! # Histories of the invalidation tables

The contexts of a process share the tables of a cache. Any sequence of invalidations, failures and
recoveries, in any order and over any number of keys, leaves an observer that kept an epoch able to
see that its key was invalidated, and a key whose invalidation failed marked until it recovers. -/

namespace ActiveTs.EntityCache

variable {K : Type u} [DecidableEq K]

/-- The calls that change the tables of a cache. -/
inductive Call (K : Type u)
  | bump (key : K)
  | mark (key : K)
  | clear (key : K)
deriving DecidableEq

namespace Memory

/-- The tables after a call, with the flag that the call threw. -/
def perform (m : Memory K) : Call K → Memory K × Bool
  | .bump key =>
    match m.bumpCacheEpoch key with
    | none => (m, true)
    | some m' => (m', false)
  | .mark key => m.markCacheInvalidationFailure key
  | .clear key => (m.clearCacheInvalidationFailure key, false)

/-- One call of a history, with the flag that it threw. -/
def Performs (m : Memory K) (event : Call K × Bool) (m' : Memory K) : Prop :=
  m.perform event.1 = (m', event.2)

/-- The tables after a call that does not throw. -/
theorem performs_returned (m : Memory K) (call : Call K) (h : (m.perform call).2 = false) :
    m.Performs (call, false) (m.perform call).1 := by
  rw [Performs, ← h]

variable {m m' : Memory K}

/-! ## Epochs -/

theorem cacheEpoch_bump {k : K} {threw : Bool} (h : m.Performs (.bump k, threw) m') :
    (∀ k', m.cacheEpoch k' ≤ m'.cacheEpoch k') ∧
      (threw = false → m.cacheEpoch k < m'.cacheEpoch k) := by
  simp only [Performs, perform] at h
  cases hbump : m.bumpCacheEpoch k with
  | none =>
    simp only [hbump, Prod.mk.injEq] at h
    obtain ⟨rfl, rfl⟩ := h
    exact ⟨fun _ => Nat.le_refl _, fun h => by cases h⟩
  | some next =>
    simp only [hbump, Prod.mk.injEq] at h
    obtain ⟨rfl, rfl⟩ := h
    obtain ⟨-, hlt, hle⟩ := bumpCacheEpoch_some hbump
    exact ⟨hle, fun _ => hlt⟩

/-- No call lowers an epoch. -/
theorem cacheEpoch_le_of_performs {event : Call K × Bool} (h : m.Performs event m') (k : K) :
    m.cacheEpoch k ≤ m'.cacheEpoch k := by
  obtain ⟨call, threw⟩ := event
  cases call with
  | bump key => exact (cacheEpoch_bump h).1 k
  | mark key =>
    have hm := congrArg (fun r => r.1.cacheEpoch k) h
    exact Nat.le_of_eq ((cacheEpoch_mark key k).symm.trans hm)
  | clear key =>
    have hm := congrArg (fun r => r.1.cacheEpoch k) h
    exact Nat.le_of_eq ((cacheEpoch_clear key k).symm.trans hm)

theorem cacheEpoch_le_of_steps {events : List (Call K × Bool)} (h : Steps Performs m events m') (k : K) :
    m.cacheEpoch k ≤ m'.cacheEpoch k := by
  induction h with
  | nil => exact Nat.le_refl _
  | snoc _ hstep ih => exact Nat.le_trans ih (cacheEpoch_le_of_performs hstep k)

/-- A history in which the key was bumped raises its epoch. The induction is on the history: the bump
is its last call or lies before it. -/
theorem cacheEpoch_lt_of_bump {events : List (Call K × Bool)} {k : K}
    (h : Steps Performs m events m') (hbump : (.bump k, false) ∈ events) :
    m.cacheEpoch k < m'.cacheEpoch k := by
  induction h with
  | nil => cases hbump
  | snoc hbefore hstep ih =>
    rcases List.mem_append.mp hbump with hbump | hlast
    · exact Nat.lt_of_lt_of_le (ih hbump) (cacheEpoch_le_of_performs hstep k)
    · cases List.mem_singleton.mp hlast
      exact Nat.lt_of_le_of_lt (cacheEpoch_le_of_steps hbefore k) ((cacheEpoch_bump hstep).2 rfl)

/-- Of two observations in a history the later is not lower, and it is another one where the key was
bumped between them. -/
theorem cacheEpoch_observations {before between : List (Call K × Bool)}
    (_ : Steps Performs .empty before m) (hbetween : Steps Performs m between m') (k : K) :
    m.cacheEpoch k ≤ m'.cacheEpoch k ∧
      ((.bump k, false) ∈ between → m.cacheEpoch k ≠ m'.cacheEpoch k) := by
  refine ⟨cacheEpoch_le_of_steps hbetween k, ?_⟩
  intro hbump
  exact Nat.ne_of_lt (cacheEpoch_lt_of_bump hbetween hbump)

theorem cacheEpoch_observations_two :
    ∃ m m' : Memory Nat, Steps Performs .empty [(.bump 1, false), (.bump 2, false)] m ∧
      Steps Performs m [(.bump 1, false)] m' ∧
      m.cacheEpoch 1 ≤ m'.cacheEpoch 1 ∧ m.cacheEpoch 1 ≠ m'.cacheEpoch 1 := by
  have hfirst := performs_returned (.empty : Memory Nat) (.bump 1) rfl
  have hother := performs_returned (perform .empty (.bump 1)).1 (.bump 2) (by decide)
  have hsecond := performs_returned (perform (perform .empty (.bump 1)).1 (.bump 2)).1 (.bump 1)
    (by decide)
  have hbefore := (Steps.single hfirst).trans (Steps.single hother)
  have hbetween := Steps.single hsecond
  have hobserved := cacheEpoch_observations hbefore hbetween 1
  exact ⟨_, _, hbefore, hbetween, hobserved.1, hobserved.2 List.mem_cons_self⟩

/-! ## Failures -/

/-- A marked key stays marked over any call but its own clear. -/
theorem has_of_performs {call : Call K} {threw : Bool} {k : K} (h : m.Performs (call, threw) m')
    (hk : m.hasCacheInvalidationFailure k) (hclear : call ≠ .clear k) :
    m'.hasCacheInvalidationFailure k := by
  cases call with
  | bump key =>
    simp only [Performs, perform] at h
    cases hbump : m.bumpCacheEpoch key with
    | none =>
      simp only [hbump, Prod.mk.injEq] at h
      exact h.1 ▸ hk
    | some next =>
      simp only [hbump, Prod.mk.injEq] at h
      obtain ⟨rfl, -⟩ := h
      rwa [hasCacheInvalidationFailure, (bumpCacheEpoch_some hbump).1]
  | mark key =>
    have hm : _ = m' := congrArg Prod.fst h
    rw [← hm]
    exact hasCacheInvalidationFailure_mark hk key
  | clear key =>
    have hm : _ = m' := congrArg Prod.fst h
    rw [← hm]
    apply hasCacheInvalidationFailure_clear hk
    rintro rfl
    exact hclear rfl

theorem has_of_steps {events : List (Call K × Bool)} {k : K} (h : Steps Performs m events m')
    (hk : m.hasCacheInvalidationFailure k) (hclear : ∀ event ∈ events, event.1 ≠ .clear k) :
    m'.hasCacheInvalidationFailure k := by
  induction h with
  | nil => exact hk
  | snoc _ hstep ih =>
    rw [List.forall_mem_append] at hclear
    exact has_of_performs hstep (ih hclear.1) (hclear.2 _ (List.mem_singleton_self _))

/-- A mark is forgotten by nothing but the clear of its key, also a mark that threw since the
generations are exhausted. -/
theorem has_untilClear {before after : List (Call K × Bool)} {threw : Bool} {k : K}
    (h : Steps Performs .empty (before ++ [(.mark k, threw)] ++ after) m)
    (hclear : ∀ event ∈ after, event.1 ≠ .clear k) : m.hasCacheInvalidationFailure k := by
  obtain ⟨marked, hbefore, hafter⟩ := h.append_inv
  obtain ⟨_, -, hmark⟩ := hbefore.snoc_inv
  apply has_of_steps hafter ?_ hclear
  have hm : _ = marked := congrArg Prod.fst hmark
  rw [← hm]
  exact hasCacheInvalidationFailure_mark_self k

theorem has_untilClear_two :
    ∃ m : Memory Nat, Steps Performs .empty [(.mark 1, false), (.mark 2, false), (.clear 2, false)] m ∧
      m.hasCacheInvalidationFailure 1 := by
  have hmark := performs_returned (.empty : Memory Nat) (.mark 1) rfl
  have hother := performs_returned (perform .empty (.mark 1)).1 (.mark 2) rfl
  have hclear := performs_returned (perform (perform .empty (.mark 1)).1 (.mark 2)).1 (.clear 2) rfl
  have hafter := (Steps.single hother).trans (Steps.single hclear)
  have hrun := (Steps.single hmark).trans hafter
  refine ⟨_, hrun, @has_untilClear _ _ _ [] _ _ _ hrun ?_⟩
  intro event hevent
  rcases List.mem_cons.mp hevent with rfl | hevent
  · simp
  · cases List.mem_singleton.mp hevent
    simp

end Memory

end ActiveTs.EntityCache
