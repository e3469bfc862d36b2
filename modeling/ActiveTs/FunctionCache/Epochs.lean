import ActiveTs.Lib.JsMap
import Mathlib.Algebra.Group.Nat.Defs

/-! # Epochs of cached functions

A key has two epochs. An invalidation raises both, so that reads from before it are refused; a refresh
raises the epoch of publications only, so that entries stay readable while older fills are fenced off.
Both share one bounded table. A key that falls out of it takes the default, which is raised over both
of its epochs. -/

namespace ActiveTs.FunctionCache

def FUNCTION_CACHE_INVALIDATION_EPOCH_LIMIT : Nat := 4096

/-- The integers that numbers count up to: one more is rounded back. -/
def lastCount : Nat := 2 ^ 53

/-- `value + 1` of a number that counts. -/
def increment (value : Nat) : Nat := min (value + 1) lastCount

structure FunctionCacheEpochs where
  invalidation : Nat
  publication : Nat
deriving DecidableEq

variable {K : Type u} [DecidableEq K]

/-- `functionCacheInvalidationEpochs` and `functionCacheDefaultInvalidationEpoch`. -/
structure EpochTable (K : Type u) where
  epochs : JsMap K FunctionCacheEpochs
  defaultEpoch : Nat
deriving DecidableEq

namespace EpochTable

def empty : EpochTable K := ⟨.empty, 0⟩

def epochsOf (m : EpochTable K) (k : K) : FunctionCacheEpochs :=
  (m.epochs.get? k).getD ⟨m.defaultEpoch, m.defaultEpoch⟩

def invalidationEpoch (m : EpochTable K) (k : K) : Nat := (m.epochsOf k).invalidation

def publicationEpoch (m : EpochTable K) (k : K) : Nat := (m.epochsOf k).publication

/-- One turn of `pruneFunctionCacheInvalidationEpochs`. -/
def pruneOldest (m : EpochTable K) : EpochTable K :=
  match m.epochs.keys.head? with
  | none => m
  | some oldest =>
    let epoch := max (m.invalidationEpoch oldest) (m.publicationEpoch oldest)
    ⟨m.epochs.delete oldest, max m.defaultEpoch (increment epoch)⟩

/-- The loop of `pruneFunctionCacheInvalidationEpochs`. Every turn removes one key. -/
def prune : Nat → EpochTable K → EpochTable K
  | 0, m => m
  | n + 1, m => prune n m.pruneOldest

def putEpochs (m : EpochTable K) (k : K) (epochs : FunctionCacheEpochs) : EpochTable K :=
  { m with epochs := (m.epochs.delete k).set k epochs }

def setEpochs (m : EpochTable K) (k : K) (epochs : FunctionCacheEpochs) : EpochTable K :=
  let put := m.putEpochs k epochs
  put.prune (put.epochs.size - FUNCTION_CACHE_INVALIDATION_EPOCH_LIMIT)

def bumpPublicationEpoch (m : EpochTable K) (k : K) : EpochTable K :=
  m.setEpochs k ⟨m.invalidationEpoch k, increment (m.publicationEpoch k)⟩

def bumpInvalidationEpoch (m : EpochTable K) (k : K) : EpochTable K :=
  let epoch := increment (max (m.invalidationEpoch k) (m.publicationEpoch k))
  m.setEpochs k ⟨epoch, epoch⟩

/-! ## What a call can do -/

/-- No epoch counts beyond what numbers count to. -/
structure Bounded (m : EpochTable K) : Prop where
  default : m.defaultEpoch ≤ lastCount
  invalidation : ∀ k, m.invalidationEpoch k ≤ lastCount
  publication : ∀ k, m.publicationEpoch k ≤ lastCount

/-- Both epochs of every key are at least what they were. -/
def Raises (m m' : EpochTable K) : Prop :=
  ∀ k, m.invalidationEpoch k ≤ m'.invalidationEpoch k ∧ m.publicationEpoch k ≤ m'.publicationEpoch k

theorem increment_le (value : Nat) : increment value ≤ lastCount := Nat.min_le_right ..

theorem le_increment {value : Nat} (h : value ≤ lastCount) : value ≤ increment value :=
  Nat.le_min.mpr ⟨Nat.le_succ _, h⟩

theorem lt_increment {value : Nat} (h : value < lastCount) : value < increment value :=
  Nat.lt_min.mpr ⟨Nat.lt_succ_self _, h⟩

theorem Raises.refl (m : EpochTable K) : Raises m m := fun _ => ⟨Nat.le_refl _, Nat.le_refl _⟩

theorem Raises.trans {m m' m'' : EpochTable K} (h : Raises m m') (h' : Raises m' m'') : Raises m m'' :=
  fun k => ⟨Nat.le_trans (h k).1 (h' k).1, Nat.le_trans (h k).2 (h' k).2⟩

theorem bounded_empty : Bounded (.empty : EpochTable K) where
  default := Nat.zero_le _
  invalidation _ := Nat.zero_le _
  publication _ := Nat.zero_le _

theorem epochsOf_delete (m : EpochTable K) (k k' : K) (defaultEpoch : Nat) :
    epochsOf ⟨m.epochs.delete k, defaultEpoch⟩ k' =
      if k = k' then ⟨defaultEpoch, defaultEpoch⟩
      else (m.epochs.get? k').getD ⟨defaultEpoch, defaultEpoch⟩ := by
  rw [epochsOf, JsMap.get?_delete]
  split <;> rfl

theorem epochsOf_put (m : EpochTable K) (k k' : K) (epochs : FunctionCacheEpochs) :
    (m.putEpochs k epochs).epochsOf k' = if k = k' then epochs else m.epochsOf k' := by
  rw [epochsOf, putEpochs, JsMap.get?_set]
  split
  · rfl
  · next hne => rw [JsMap.get?_delete_of_ne _ hne, epochsOf]

/-- A key that is removed takes a default that is not below its epochs. -/
theorem raises_delete {m : EpochTable K} {oldest : K} {defaultEpoch : Nat}
    (hdefault : m.defaultEpoch ≤ defaultEpoch) (hinvalidation : m.invalidationEpoch oldest ≤ defaultEpoch)
    (hpublication : m.publicationEpoch oldest ≤ defaultEpoch) :
    Raises m ⟨m.epochs.delete oldest, defaultEpoch⟩ := by
  intro k
  by_cases hk : oldest = k
  · subst hk
    simp only [invalidationEpoch, publicationEpoch, epochsOf_delete, if_true]
    exact ⟨hinvalidation, hpublication⟩
  · simp only [invalidationEpoch, publicationEpoch, epochsOf_delete, hk, if_false]
    rw [epochsOf]
    cases m.epochs.get? k with
    | none => exact ⟨hdefault, hdefault⟩
    | some epochs => exact ⟨Nat.le_refl _, Nat.le_refl _⟩

theorem bounded_delete {m : EpochTable K} {oldest : K} {defaultEpoch : Nat} (h : Bounded m)
    (hdefault : defaultEpoch ≤ lastCount) : Bounded ⟨m.epochs.delete oldest, defaultEpoch⟩ := by
  have hepochs (k : K) : (epochsOf ⟨m.epochs.delete oldest, defaultEpoch⟩ k).invalidation ≤ lastCount ∧
      (epochsOf ⟨m.epochs.delete oldest, defaultEpoch⟩ k).publication ≤ lastCount := by
    have hk : (m.epochsOf k).invalidation ≤ lastCount ∧ (m.epochsOf k).publication ≤ lastCount :=
      ⟨h.invalidation k, h.publication k⟩
    rw [epochsOf] at hk
    rw [epochsOf_delete]
    split
    · exact ⟨hdefault, hdefault⟩
    · cases hget : m.epochs.get? k with
      | none => exact ⟨hdefault, hdefault⟩
      | some epochs => rwa [hget] at hk
  exact ⟨hdefault, fun k => (hepochs k).1, fun k => (hepochs k).2⟩

theorem pruneOldest_step {m : EpochTable K} (h : Bounded m) :
    Bounded m.pruneOldest ∧ Raises m m.pruneOldest := by
  unfold pruneOldest
  split
  · exact ⟨h, .refl m⟩
  · next oldest _ =>
    have hepochs := Nat.max_le.mpr ⟨h.invalidation oldest, h.publication oldest⟩
    have hraised := Nat.max_le.mp (Nat.le_trans (le_increment hepochs) (Nat.le_max_right m.defaultEpoch _))
    constructor
    · exact bounded_delete h (Nat.max_le.mpr ⟨h.default, increment_le _⟩)
    · exact raises_delete (Nat.le_max_left ..) hraised.1 hraised.2

theorem prune_step {m : EpochTable K} (n : Nat) (h : Bounded m) :
    Bounded (m.prune n) ∧ Raises m (m.prune n) := by
  induction n generalizing m with
  | zero => exact ⟨h, .refl m⟩
  | succ n ih =>
    obtain ⟨hbounded, hraises⟩ := pruneOldest_step h
    obtain ⟨hpruned, hrest⟩ := ih hbounded
    exact ⟨hpruned, hraises.trans hrest⟩

/-- Epochs that are not lower are put, and then the oldest keys go. -/
theorem setEpochs_step {m : EpochTable K} {k : K} (epochs : FunctionCacheEpochs) (h : Bounded m)
    (hinvalidation : m.invalidationEpoch k ≤ epochs.invalidation ∧ epochs.invalidation ≤ lastCount)
    (hpublication : m.publicationEpoch k ≤ epochs.publication ∧ epochs.publication ≤ lastCount) :
    Bounded (m.setEpochs k epochs) ∧ Raises m (m.setEpochs k epochs) ∧
      epochs.invalidation ≤ (m.setEpochs k epochs).invalidationEpoch k ∧
      epochs.publication ≤ (m.setEpochs k epochs).publicationEpoch k := by
  have hput : Bounded (m.putEpochs k epochs) := by
    refine ⟨h.default, ?_, ?_⟩ <;> intro k'
    · rw [invalidationEpoch, epochsOf_put]
      split
      · exact hinvalidation.2
      · exact h.invalidation k'
    · rw [publicationEpoch, epochsOf_put]
      split
      · exact hpublication.2
      · exact h.publication k'
  have hraised : Raises m (m.putEpochs k epochs) := by
    intro k'
    rw [invalidationEpoch, publicationEpoch, invalidationEpoch, publicationEpoch, epochsOf_put]
    split
    · next hk =>
      subst hk
      exact ⟨hinvalidation.1, hpublication.1⟩
    · exact ⟨Nat.le_refl _, Nat.le_refl _⟩
  obtain ⟨hbounded, hpruned⟩ :=
    prune_step ((m.putEpochs k epochs).epochs.size - FUNCTION_CACHE_INVALIDATION_EPOCH_LIMIT) hput
  have hself := hpruned k
  rw [invalidationEpoch, publicationEpoch, epochsOf_put, if_pos rfl] at hself
  exact ⟨hbounded, hraised.trans hpruned, hself.1, hself.2⟩

/-! ## Histories -/

/-- The calls that change the table. -/
inductive Bump (K : Type u)
  | publication (key : K)
  | invalidation (key : K)
deriving DecidableEq

def bump (m : EpochTable K) : Bump K → EpochTable K
  | .publication key => m.bumpPublicationEpoch key
  | .invalidation key => m.bumpInvalidationEpoch key

/-- The epochs that a call raises. -/
structure Bumps (m m' : EpochTable K) (call : Bump K) : Prop where
  bounded : Bounded m'
  raises : Raises m m'
  /-- An invalidation raises the epoch of invalidations, as far as numbers count. -/
  invalidation : ∀ k, call = .invalidation k → m.invalidationEpoch k < lastCount →
    m.invalidationEpoch k < m'.invalidationEpoch k
  /-- Either call raises the epoch of publications. -/
  publication : ∀ k, call = .invalidation k ∨ call = .publication k →
    m.publicationEpoch k < lastCount → m.publicationEpoch k < m'.publicationEpoch k

theorem bump_step {m : EpochTable K} (h : Bounded m) (call : Bump K) : Bumps m (m.bump call) call := by
  cases call with
  | publication key =>
    have hpublication := h.publication key
    obtain ⟨hbounded, hraises, -, hraised⟩ :=
      setEpochs_step ⟨m.invalidationEpoch key, increment (m.publicationEpoch key)⟩ h
        ⟨Nat.le_refl _, h.invalidation key⟩ ⟨le_increment hpublication, increment_le _⟩
    refine ⟨hbounded, hraises, ?_, ?_⟩
    · intro k hk
      cases hk
    · rintro k (hk | hk) hlt
      · cases hk
      · cases hk
        exact Nat.lt_of_lt_of_le (lt_increment hlt) hraised
  | invalidation key =>
    have hmax := Nat.max_le.mpr ⟨h.invalidation key, h.publication key⟩
    have hle := Nat.max_le.mp (le_increment hmax)
    obtain ⟨hbounded, hraises, hinvalidation, hpublication⟩ :=
      setEpochs_step ⟨increment (max (m.invalidationEpoch key) (m.publicationEpoch key)),
        increment (max (m.invalidationEpoch key) (m.publicationEpoch key))⟩ h
        ⟨hle.1, increment_le _⟩ ⟨hle.2, increment_le _⟩
    refine ⟨hbounded, hraises, ?_, ?_⟩
    · intro k hk hlt
      cases hk
      refine Nat.lt_of_lt_of_le (Nat.lt_of_lt_of_le (lt_increment hlt) ?_) hinvalidation
      exact Nat.le_min.mpr ⟨Nat.le_trans (Nat.min_le_left ..) (Nat.succ_le_succ (Nat.le_max_left ..)),
        increment_le _⟩
    · rintro k (hk | hk) hlt
      · cases hk
        refine Nat.lt_of_lt_of_le (Nat.lt_of_lt_of_le (lt_increment hlt) ?_) hpublication
        exact Nat.le_min.mpr
          ⟨Nat.le_trans (Nat.min_le_left ..) (Nat.succ_le_succ (Nat.le_max_right ..)), increment_le _⟩
      · cases hk

def history (m : EpochTable K) (calls : List (Bump K)) : EpochTable K := calls.foldl bump m

theorem history_raises {m : EpochTable K} (h : Bounded m) (calls : List (Bump K)) :
    Bounded (m.history calls) ∧ Raises m (m.history calls) := by
  induction calls generalizing m with
  | nil => exact ⟨h, .refl m⟩
  | cons call calls ih =>
    have hstep := bump_step h call
    obtain ⟨hbounded, hraises⟩ := ih hstep.bounded
    exact ⟨hbounded, hstep.raises.trans hraises⟩

/-- A reader that kept the invalidation epoch of a key sees every invalidation of it, and one that kept
the publication epoch sees every refresh too, until numbers no longer count. -/
theorem history_observed {m : EpochTable K} (h : Bounded m) (calls : List (Bump K)) (k : K) :
    (.invalidation k ∈ calls → (m.history calls).invalidationEpoch k < lastCount →
      m.invalidationEpoch k < (m.history calls).invalidationEpoch k) ∧
    (.invalidation k ∈ calls ∨ .publication k ∈ calls →
      (m.history calls).publicationEpoch k < lastCount →
      m.publicationEpoch k < (m.history calls).publicationEpoch k) := by
  induction calls generalizing m with
  | nil =>
    constructor
    · intro hmem
      cases hmem
    · rintro (hmem | hmem)
      · cases hmem
      · cases hmem
  | cons call calls ih =>
    have hstep := bump_step h call
    have hlater := (history_raises hstep.bounded calls).2 k
    obtain ⟨hinvalidation, hpublication⟩ := ih hstep.bounded
    constructor
    · intro hmem hlt
      obtain hself | hmem := List.mem_cons.mp hmem
      · have hcount := Nat.lt_of_le_of_lt (Nat.le_trans (hstep.raises k).1 hlater.1) hlt
        exact Nat.lt_of_lt_of_le (hstep.invalidation k hself.symm hcount) hlater.1
      · exact Nat.lt_of_le_of_lt (hstep.raises k).1 (hinvalidation hmem hlt)
    · intro hmem hlt
      have hcount := Nat.lt_of_le_of_lt (Nat.le_trans (hstep.raises k).2 hlater.2) hlt
      rw [List.mem_cons, List.mem_cons] at hmem
      obtain (hself | hmem) | (hself | hmem) := hmem
      · exact Nat.lt_of_lt_of_le (hstep.publication k (.inl hself.symm) hcount) hlater.2
      · exact Nat.lt_of_le_of_lt (hstep.raises k).2 (hpublication (.inl hmem) hlt)
      · exact Nat.lt_of_lt_of_le (hstep.publication k (.inr hself.symm) hcount) hlater.2
      · exact Nat.lt_of_le_of_lt (hstep.raises k).2 (hpublication (.inr hmem) hlt)

end EpochTable

end ActiveTs.FunctionCache
