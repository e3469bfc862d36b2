import ActiveTs.Lib.JsMap

/-! # The invalidation tables of one process

Beside a cache adapter a process keeps two bounded tables. The epochs count the local
invalidations of a key, so that a fill can see that one came after its start. The failures are the
keys whose last invalidation may have left a stale entry behind. Both forget on the safe side: a
forgotten epoch only grows, and a forgotten failure poisons every key. -/

namespace ActiveTs.EntityCache

def SHARED_CACHE_INVALIDATION_EPOCH_LIMIT : Nat := 4096

def SHARED_CACHE_INVALIDATION_FAILURE_LIMIT : Nat := 4096

def MAX_SAFE_INTEGER : Nat := 9007199254740991

variable {K : Type u} [DecidableEq K]

/-! ## Epochs -/

/-- The state behind `cacheEpochState`. -/
structure EpochState (K : Type u) where
  epochs : JsMap K Nat
  defaultEpoch : Nat
deriving DecidableEq

namespace EpochState

def empty : EpochState K := ⟨.empty, 0⟩

/-- `cacheEpoch`. -/
def epoch (m : EpochState K) (k : K) : Nat := (m.epochs.get? k).getD m.defaultEpoch

/-- One turn of the eviction loop: the oldest key falls back to a raised default. -/
def evictOldest (m : EpochState K) : EpochState K :=
  match m.epochs.keys.head? with
  | none => m
  | some oldest =>
    { epochs := m.epochs.delete oldest
      defaultEpoch := max m.defaultEpoch (m.epoch oldest + 1) }

/-- The eviction loop. Every turn removes one key. -/
def evict : Nat → EpochState K → EpochState K
  | 0, m => m
  | n + 1, m => evict n m.evictOldest

/-- The key moves to the end of the table with the next epoch. -/
def raise (m : EpochState K) (k : K) : EpochState K :=
  { m with epochs := (m.epochs.delete k).set k (m.epoch k + 1) }

/-- `bumpCacheEpoch`; it throws when the counter of the key is exhausted. -/
def bump (m : EpochState K) (k : K) : Option (EpochState K) :=
  if MAX_SAFE_INTEGER - 1 ≤ m.epoch k then none
  else
    some ((m.raise k).evict ((m.raise k).epochs.size - SHARED_CACHE_INVALIDATION_EPOCH_LIMIT))

theorem epoch_le_evictOldest (m : EpochState K) (k : K) : m.epoch k ≤ m.evictOldest.epoch k := by
  unfold evictOldest
  split
  · exact Nat.le_refl _
  · next oldest _ =>
    simp only [epoch, JsMap.get?_delete]
    split
    · next h =>
      rw [h, Option.getD_none]
      exact Nat.le_trans (Nat.le_succ _) (Nat.le_max_right ..)
    · cases m.epochs.get? k with
      | none => exact Nat.le_max_left ..
      | some e => exact Nat.le_refl _

theorem epoch_le_evict (n : Nat) (m : EpochState K) (k : K) : m.epoch k ≤ (m.evict n).epoch k := by
  induction n generalizing m with
  | zero => exact Nat.le_refl _
  | succ n ih => exact Nat.le_trans (m.epoch_le_evictOldest k) (ih m.evictOldest)

theorem epoch_raise (m : EpochState K) (k k' : K) :
    (m.raise k).epoch k' = if k = k' then m.epoch k + 1 else m.epoch k' := by
  simp only [raise, epoch, JsMap.get?_set]
  split
  · rfl
  · next hne => rw [JsMap.get?_delete_of_ne _ hne]

theorem bump_some {m m' : EpochState K} {k : K} (h : m.bump k = some m') (k' : K) :
    (if k = k' then m.epoch k + 1 else m.epoch k') ≤ m'.epoch k' := by
  unfold bump at h
  split at h
  · cases h
  · rw [← Option.some.inj h, ← epoch_raise]
    exact epoch_le_evict _ _ k'

end EpochState

/-! ## Failures -/

/-- The state behind `sharedCacheInvalidationFailures`. -/
structure FailureState (K : Type u) where
  failures : JsMap K Unit
  poisonGeneration : Nat
  recovered : JsMap K Nat
deriving DecidableEq

namespace FailureState

def empty : FailureState K := ⟨.empty, 0, .empty⟩

/-- `hasCacheInvalidationFailure`, once the state exists. -/
def has (m : FailureState K) (k : K) : Bool :=
  m.failures.has k || (0 < m.poisonGeneration && m.recovered.get? k ≠ some m.poisonGeneration)

/-- `markCacheInvalidationFailure`; the flag tells that it threw because the generation counter
is exhausted. -/
def mark (m : FailureState K) (k : K) : FailureState K × Bool :=
  let m := { m with failures := m.failures.set k (), recovered := m.recovered.delete k }
  if m.failures.size ≤ SHARED_CACHE_INVALIDATION_FAILURE_LIMIT then (m, false)
  else if MAX_SAFE_INTEGER ≤ m.poisonGeneration then (m, true)
  else (⟨.empty, m.poisonGeneration + 1, .empty⟩, false)

/-- The loop that bounds the recovered keys. -/
def forget : Nat → JsMap K Nat → JsMap K Nat
  | 0, recovered => recovered
  | n + 1, recovered => forget n (recovered.keys.head?.elim recovered recovered.delete)

/-- `clearCacheInvalidationFailure`; the state goes when it holds nothing. -/
def clear (m : FailureState K) (k : K) : Option (FailureState K) :=
  let m := { m with failures := m.failures.delete k }
  if 0 < m.poisonGeneration then
    let recovered := (m.recovered.delete k).set k m.poisonGeneration
    some { m with
      recovered := forget (recovered.size - SHARED_CACHE_INVALIDATION_FAILURE_LIMIT) recovered }
  else if m.failures.size = 0 then none
  else some m

theorem has_mark_self (m : FailureState K) (k : K) : (m.mark k).1.has k := by
  unfold mark
  dsimp only
  split
  · simp [has, JsMap.has]
  · split
    · simp [has, JsMap.has]
    · simp [has]

/-- Marking a key hides no other failure. -/
theorem has_mark {m : FailureState K} {k' : K} (h : m.has k') (k : K) : (m.mark k).1.has k' := by
  rcases eq_or_ne k k' with rfl | hne
  · exact m.has_mark_self k
  · have hset : FailureState.has
        { m with failures := m.failures.set k (), recovered := m.recovered.delete k } k' := by
      simpa [has, JsMap.has, JsMap.get?_set_of_ne _ _ hne, JsMap.get?_delete_of_ne _ hne] using h
    unfold mark
    dsimp only
    split
    · exact hset
    · split
      · exact hset
      · simp [has]

theorem forget_get? {n : Nat} {recovered : JsMap K Nat} {k : K} {e : Nat}
    (h : (forget n recovered).get? k = some e) : recovered.get? k = some e := by
  induction n generalizing recovered with
  | zero => exact h
  | succ n ih =>
    have hstep := ih h
    cases hhead : recovered.keys.head? with
    | none => simpa [hhead] using hstep
    | some oldest =>
      rw [hhead, Option.elim_some, JsMap.get?_delete] at hstep
      split at hstep
      · cases hstep
      · exact hstep

/-- Clearing a key clears no other failure. -/
theorem has_clear {m : FailureState K} {k k' : K} (h : m.has k') (hne : k ≠ k') :
    ∃ m', m.clear k = some m' ∧ m'.has k' := by
  unfold clear
  dsimp only
  split
  · next hgen =>
    refine ⟨_, rfl, ?_⟩
    simp only [has, JsMap.has, JsMap.get?_delete_of_ne _ hne, hgen, decide_true, Bool.true_and,
      Bool.or_eq_true, decide_eq_true_eq] at h ⊢
    rcases h with h | h
    · exact .inl h
    · refine .inr fun he => h ?_
      have hmem := forget_get? he
      rwa [JsMap.get?_set_of_ne _ _ hne, JsMap.get?_delete_of_ne _ hne] at hmem
  · next hgen =>
    have hfail : (m.failures.delete k).has k' := by
      simpa [has, JsMap.has, hgen, JsMap.get?_delete_of_ne _ hne] using h
    split
    · next hsize =>
      obtain ⟨v, hv⟩ := JsMap.has_iff.mp hfail
      rw [JsMap.size_eq_zero_iff.mp hsize k'] at hv
      cases hv
    · refine ⟨_, rfl, ?_⟩
      simp [has, hfail]

end FailureState

/-! ## Both tables -/

/-- What a process remembers about the keys of one cache adapter. -/
structure Memory (K : Type u) where
  epochs : EpochState K
  failures : Option (FailureState K)
deriving DecidableEq

namespace Memory

def empty : Memory K := ⟨.empty, none⟩

def cacheEpoch (m : Memory K) (k : K) : Nat := m.epochs.epoch k

def bumpCacheEpoch (m : Memory K) (k : K) : Option (Memory K) :=
  (m.epochs.bump k).map fun epochs => { m with epochs := epochs }

/-- The epoch of the key is still the one that was noted. -/
def cacheEpochUnchanged (m : Memory K) (k : K) (expectedEpochs : JsMap K Nat) : Bool :=
  expectedEpochs.get? k = some (m.cacheEpoch k)

def hasCacheInvalidationFailure (m : Memory K) (k : K) : Bool := m.failures.any (·.has k)

def markCacheInvalidationFailure (m : Memory K) (k : K) : Memory K × Bool :=
  let marked := (m.failures.getD .empty).mark k
  ({ m with failures := some marked.1 }, marked.2)

def clearCacheInvalidationFailure (m : Memory K) (k : K) : Memory K :=
  { m with failures := m.failures.bind (·.clear k) }

variable {m m' : Memory K}

theorem bumpCacheEpoch_some {k : K} (h : m.bumpCacheEpoch k = some m') :
    m'.failures = m.failures ∧ m.cacheEpoch k < m'.cacheEpoch k ∧
      ∀ k', m.cacheEpoch k' ≤ m'.cacheEpoch k' := by
  obtain ⟨epochs, hbump, rfl⟩ := Option.map_eq_some_iff.mp h
  refine ⟨rfl, ?_, fun k' => ?_⟩
  · have hle := EpochState.bump_some hbump k
    rw [if_pos rfl] at hle
    exact hle
  · refine Nat.le_trans ?_ (EpochState.bump_some hbump k')
    split
    · next h => exact h ▸ Nat.le_succ _
    · exact Nat.le_refl _

@[simp] theorem cacheEpoch_mark (k k' : K) :
    (m.markCacheInvalidationFailure k).1.cacheEpoch k' = m.cacheEpoch k' := rfl

@[simp] theorem cacheEpoch_clear (k k' : K) :
    (m.clearCacheInvalidationFailure k).cacheEpoch k' = m.cacheEpoch k' := rfl

theorem hasCacheInvalidationFailure_mark_self (k : K) :
    (m.markCacheInvalidationFailure k).1.hasCacheInvalidationFailure k :=
  FailureState.has_mark_self _ k

theorem hasCacheInvalidationFailure_mark {k' : K} (h : m.hasCacheInvalidationFailure k') (k : K) :
    (m.markCacheInvalidationFailure k).1.hasCacheInvalidationFailure k' := by
  obtain ⟨failures, hfail, hhas⟩ := (Option.any_eq_true _ _).mp h
  refine FailureState.has_mark ?_ k
  rwa [hfail, Option.getD_some]

theorem hasCacheInvalidationFailure_clear {k k' : K} (h : m.hasCacheInvalidationFailure k')
    (hne : k ≠ k') : (m.clearCacheInvalidationFailure k).hasCacheInvalidationFailure k' := by
  obtain ⟨failures, hfail, hhas⟩ := (Option.any_eq_true _ _).mp h
  obtain ⟨failures', hclear, hhas'⟩ := FailureState.has_clear hhas hne
  rw [hasCacheInvalidationFailure, clearCacheInvalidationFailure, hfail, Option.bind_some, hclear]
  exact hhas'

end Memory

end ActiveTs.EntityCache
