import ActiveTs.Outbox.Worker
import Mathlib.Data.List.Induction
import Mathlib.Data.List.Pairwise
import Mathlib.Data.List.Range

/-! # Delivery order in one run

The keys that hold an event back come from the events that failed or lost their lease before it. A
deferred event blocks nothing itself, so the order of conflicting events is kept exactly when a
conflict with a deferred event is also a conflict with the event that it waits for. -/

namespace ActiveTs.Outbox

variable {D : Type u}
variable (documentIdentity : String → Option String → EntityId → Option DatastoreKey → String)

/-! ## Conflicts -/

/-- The keys that an entry is checked against after its validation. -/
def RawEntry.checkKeys (raw : RawEntry D) (index : Nat) : List String :=
  match raw.sanitize with
  | .ok e => outboxEntityOrderCheckKeys documentIdentity e
  | .error _ => outboxIdentityOrderKeys raw.identity index

/-- The keys that an undelivered entry blocks. -/
def RawEntry.blockKeys (raw : RawEntry D) (index : Nat) : List String :=
  match raw.sanitize with
  | .ok e => outboxEntityOrderBlockKeys documentIdentity e
  | .error _ => outboxIdentityOrderKeys raw.identity index

/-- All keys that an entry waits for: the raw identity is checked as well. -/
def RawEntry.waitKeys (raw : RawEntry D) (index : Nat) : List String :=
  outboxIdentityOrderKeys raw.identity index ++ raw.checkKeys documentIdentity index

/-- A check key of the later entry is among the block keys of the earlier one. -/
def Conflict (batch : List (RawEntry D)) (i j : Nat) : Prop :=
  ∃ ri rj, batch[i]? = some ri ∧ batch[j]? = some rj ∧
    ∃ key ∈ rj.checkKeys documentIdentity j, key ∈ ri.blockKeys documentIdentity i

/-- The later entry waits for the earlier one when that stays undelivered. -/
def WaitsFor (batch : List (RawEntry D)) (i j : Nat) : Prop :=
  ∃ ri rj, batch[i]? = some ri ∧ batch[j]? = some rj ∧
    ∃ key ∈ rj.waitKeys documentIdentity j, key ∈ ri.blockKeys documentIdentity i

variable {documentIdentity} in
theorem Conflict.waitsFor {batch : List (RawEntry D)} {i j : Nat}
    (h : Conflict documentIdentity batch i j) : WaitsFor documentIdentity batch i j := by
  obtain ⟨ri, rj, hi, hj, key, hcheck, hblock⟩ := h
  exact ⟨ri, rj, hi, hj, key, List.mem_append_right _ hcheck, hblock⟩

/-- Conflicts go through deferred events: who conflicts with an event that waits also waits. -/
def Chained (batch : List (RawEntry D)) : Prop :=
  ∀ h i j, h < i → i < j → WaitsFor documentIdentity batch h i →
    Conflict documentIdentity batch i j → WaitsFor documentIdentity batch h j

/-- No event is processed after a conflicting one that was deferred or failed, and what is given
back keeps the order of the batch. -/
structure OrderKept (batch : List (RawEntry D)) (run : WorkerRun D) : Prop where
  held : ∀ i j, i < j → Conflict documentIdentity batch i j →
    i ∈ run.loop.deferred.map Pending.index ∨ i ∈ run.loop.failed → j ∉ run.loop.processed
  sorted : run.settlement.recovered.Pairwise fun a b => a.index ≤ b.index

/-! ## One round of the loop -/

/-- What a delivery does to the state of the loop. -/
def LoopState.finish (s : LoopState D) (index : Nat) (raw : RawEntry D) (event : OutboxEvent D)
    (delivery : Delivery) : LoopState D :=
  let blockKeys := outboxEntityOrderBlockKeys documentIdentity event
  match delivery.result with
  | .processed => { s with processed := s.processed ++ [index] }
  | .lost => { s with lost := s.lost ++ [index] }.block blockKeys
  | .failed error =>
    (s.fail index raw (some (event.renew delivery.renewal)) error).block blockKeys

/-- A renewal leaves the order keys as they are. -/
theorem outboxEntityOrderBlockKeys_renew (event : OutboxEvent D) (renewal : Option Renewal) :
    outboxEntityOrderBlockKeys documentIdentity (event.renew renewal) =
      outboxEntityOrderBlockKeys documentIdentity event := by
  cases renewal <;> rfl

/-- The three ways of one round. -/
theorem visit_cases (env : Environment D) (s : LoopState D) (index : Nat) (raw : RawEntry D) :
    ((∃ key ∈ raw.waitKeys documentIdentity index, key ∈ s.blocked) ∧
        visit documentIdentity env s index raw = s.defer index raw) ∨
      (¬ (∃ key ∈ raw.waitKeys documentIdentity index, key ∈ s.blocked) ∧
        ((∃ e, raw.sanitize = .error e) ∧ visit documentIdentity env s index raw =
            (s.fail index raw none ⟨"validation", false⟩).block
              (raw.blockKeys documentIdentity index) ∨
          ∃ event, raw.sanitize = .ok event ∧ visit documentIdentity env s index raw =
            s.finish documentIdentity index raw event (env.deliver index event))) := by
  unfold visit RawEntry.waitKeys RawEntry.checkKeys RawEntry.blockKeys
  by_cases hid : outboxEntityOrderKeysBlocked s.blocked
      (outboxIdentityOrderKeys raw.identity index) = true
  · obtain ⟨key, hkey, hb⟩ := outboxEntityOrderKeysBlocked_iff.mp hid
    exact .inl ⟨⟨key, List.mem_append_left _ hkey, hb⟩, if_pos hid⟩
  · have hid' : ¬ ∃ key ∈ outboxIdentityOrderKeys raw.identity index, key ∈ s.blocked :=
      fun h => hid (outboxEntityOrderKeysBlocked_iff.mpr h)
    simp only [if_neg hid]
    cases hs : raw.sanitize with
    | error e =>
      refine .inr ⟨?_, .inl ⟨⟨e, rfl⟩, rfl⟩⟩
      rintro ⟨key, hkey, hb⟩
      rcases List.mem_append.mp hkey with hkey | hkey
      · exact hid' ⟨key, hkey, hb⟩
      · exact hid' ⟨key, hkey, hb⟩
    | ok event =>
      obtain ⟨rfl, -⟩ := RawEntry.sanitize_ok hs
      by_cases hc : outboxEntityOrderKeysBlocked s.blocked
          (outboxEntityOrderCheckKeys documentIdentity event) = true
      · obtain ⟨key, hkey, hb⟩ := outboxEntityOrderKeysBlocked_iff.mp hc
        exact .inl ⟨⟨key, List.mem_append_right _ hkey, hb⟩, if_pos hc⟩
      · refine .inr ⟨?_, .inr ⟨event, rfl, ?_⟩⟩
        · rintro ⟨key, hkey, hb⟩
          rcases List.mem_append.mp hkey with hkey | hkey
          · exact hid' ⟨key, hkey, hb⟩
          · exact hc (outboxEntityOrderKeysBlocked_iff.mpr ⟨key, hkey, hb⟩)
        · refine (if_neg hc).trans ?_
          rw [outboxEntityOrderBlockKeys_renew]
          cases hd : (env.deliver index event).result <;> simp only [LoopState.finish, hd]

/-! ## The state after a prefix of the batch -/

theorem indexed_append (start : Nat) (batch rest : List (RawEntry D)) :
    indexed start (batch ++ rest) =
      indexed start batch ++ indexed (start + batch.length) rest := by
  induction batch generalizing start with
  | nil => rfl
  | cons raw batch ih =>
    rw [List.cons_append, indexed, ih, indexed, List.length_cons, List.cons_append]
    congr 3
    omega

theorem map_index_indexed (start : Nat) (batch : List (RawEntry D)) :
    (indexed start batch).map Pending.index = List.range' start batch.length := by
  induction batch generalizing start with
  | nil => rfl
  | cons raw batch ih => rw [indexed, List.map_cons, ih, List.length_cons, List.range'_succ]

theorem eventLoop_snoc (env : Environment D) (batch : List (RawEntry D)) (raw : RawEntry D) :
    eventLoop documentIdentity env (batch ++ [raw]) =
      visit documentIdentity env (eventLoop documentIdentity env batch) batch.length raw := by
  rw [eventLoop, indexed_append, List.foldl_append, Nat.zero_add]
  rfl

/-- An index that was attempted and is not delivered. -/
def LoopState.Undone (s : LoopState D) (i : Nat) : Prop := i ∈ s.failed ∨ i ∈ s.lost

/-- The state after the entries of `batch`. -/
structure Visited (env : Environment D) (batch : List (RawEntry D)) (s : LoopState D) : Prop where
  blocked : ∀ key, key ∈ s.blocked ↔
    ∃ i raw, s.Undone i ∧ batch[i]? = some raw ∧ key ∈ raw.blockKeys documentIdentity i
  processed : ∀ i ∈ s.processed, ∃ raw event, batch[i]? = some raw ∧ raw.sanitize = .ok event ∧
    (env.deliver i event).result = .processed ∧
    ∀ h < i, s.Undone h → ¬ WaitsFor documentIdentity batch h i
  undone : ∀ i, s.Undone i → ∃ raw, batch[i]? = some raw ∧ ∀ event, raw.sanitize = .ok event →
    (env.deliver i event).result ≠ .processed
  deferred : ∀ p ∈ s.deferred, batch[p.index]? = some p.value ∧
    ∃ h < p.index, s.Undone h ∧ WaitsFor documentIdentity batch h p.index
  covered : (s.processed ++ s.lost ++ s.failed ++ s.deferred.map Pending.index).Perm
    (List.range batch.length)

section
variable {documentIdentity}

theorem WaitsFor.append {batch : List (RawEntry D)} {i j : Nat}
    (h : WaitsFor documentIdentity batch i j) (rest : List (RawEntry D)) :
    WaitsFor documentIdentity (batch ++ rest) i j := by
  obtain ⟨ri, rj, hi, hj, hkey⟩ := h
  refine ⟨ri, rj, ?_, ?_, hkey⟩
  · rw [List.getElem?_append_left (List.getElem?_eq_some_iff.mp hi).1, hi]
  · rw [List.getElem?_append_left (List.getElem?_eq_some_iff.mp hj).1, hj]

theorem WaitsFor.of_append {batch rest : List (RawEntry D)} {i j : Nat}
    (h : WaitsFor documentIdentity (batch ++ rest) i j) (hij : i < j) (hj : j < batch.length) :
    WaitsFor documentIdentity batch i j := by
  obtain ⟨ri, rj, hri, hrj, hkey⟩ := h
  rw [List.getElem?_append_left (hij.trans hj)] at hri
  rw [List.getElem?_append_left hj] at hrj
  exact ⟨ri, rj, hri, hrj, hkey⟩

variable {env : Environment D} {batch : List (RawEntry D)} {s : LoopState D}

theorem Visited.undone_lt (h : Visited documentIdentity env batch s) {i : Nat}
    (hi : s.Undone i) : i < batch.length := by
  obtain ⟨raw, hraw, -⟩ := h.undone i hi
  exact (List.getElem?_eq_some_iff.mp hraw).1

theorem Visited.processed_lt (h : Visited documentIdentity env batch s) {i : Nat}
    (hi : i ∈ s.processed) : i < batch.length := by
  obtain ⟨raw, event, hraw, -⟩ := h.processed i hi
  exact (List.getElem?_eq_some_iff.mp hraw).1

/-- The next entry waits exactly for the undone entries before it. -/
theorem Visited.waits_iff (h : Visited documentIdentity env batch s) (raw : RawEntry D) :
    (∃ key ∈ raw.waitKeys documentIdentity batch.length, key ∈ s.blocked) ↔
      ∃ i < batch.length, s.Undone i ∧
        WaitsFor documentIdentity (batch ++ [raw]) i batch.length := by
  have hlast : (batch ++ [raw])[batch.length]? = some raw := by simp
  constructor
  · rintro ⟨key, hkey, hb⟩
    obtain ⟨i, ri, hi, hri, hblock⟩ := (h.blocked key).mp hb
    have hlt := (List.getElem?_eq_some_iff.mp hri).1
    refine ⟨i, hlt, hi, ri, raw, ?_, hlast, key, hkey, hblock⟩
    rw [List.getElem?_append_left hlt, hri]
  · rintro ⟨i, hlt, hi, ri, rj, hri, hrj, key, hkey, hblock⟩
    rw [hlast] at hrj
    obtain rfl := Option.some.inj hrj
    rw [List.getElem?_append_left hlt] at hri
    exact ⟨key, hkey, (h.blocked key).mpr ⟨i, ri, hi, hri, hblock⟩⟩

theorem Visited.getElem?_append {i : Nat} {r : RawEntry D} (hi : batch[i]? = some r)
    (raw : RawEntry D) : (batch ++ [raw])[i]? = some r := by
  rw [List.getElem?_append_left (List.getElem?_eq_some_iff.mp hi).1, hi]

/-- What was processed does not wait for anything undone before it, whatever comes later. -/
theorem Visited.processed_append (h : Visited documentIdentity env batch s) (raw : RawEntry D)
    {s' : LoopState D} (hundone : ∀ i, s'.Undone i → s.Undone i ∨ i = batch.length) {i : Nat}
    (hi : i ∈ s.processed) :
    ∃ r event, (batch ++ [raw])[i]? = some r ∧ r.sanitize = .ok event ∧
      (env.deliver i event).result = .processed ∧
      ∀ h < i, s'.Undone h → ¬ WaitsFor documentIdentity (batch ++ [raw]) h i := by
  obtain ⟨r, event, hr, hs, hd, hw⟩ := h.processed i hi
  refine ⟨r, event, getElem?_append hr raw, hs, hd, fun k hk hu hwait => ?_⟩
  have hlt := h.processed_lt hi
  rcases hundone k hu with hu | rfl
  · exact hw k hk hu (hwait.of_append hk hlt)
  · omega

theorem Visited.deferred_append (h : Visited documentIdentity env batch s) (raw : RawEntry D)
    {s' : LoopState D} (hundone : ∀ i, s.Undone i → s'.Undone i) {p : Pending D}
    (hp : p ∈ s.deferred) :
    (batch ++ [raw])[p.index]? = some p.value ∧ ∃ h < p.index, s'.Undone h ∧
      WaitsFor documentIdentity (batch ++ [raw]) h p.index := by
  obtain ⟨hval, k, hk, hu, hw⟩ := h.deferred p hp
  exact ⟨getElem?_append hval raw, k, hk, hundone k hu, hw.append [raw]⟩

/-- The next entry stays undelivered and blocks its keys. -/
theorem Visited.mark (h : Visited documentIdentity env batch s) {raw : RawEntry D}
    {s' : LoopState D} (hprocessed : s'.processed = s.processed)
    (hdeferred : s'.deferred = s.deferred)
    (hblocked : s'.blocked = s.blocked ++ raw.blockKeys documentIdentity batch.length)
    (hmarked : s'.lost = s.lost ++ [batch.length] ∧ s'.failed = s.failed ∨
      s'.lost = s.lost ∧ s'.failed = s.failed ++ [batch.length])
    (hresult : ∀ event, raw.sanitize = .ok event →
      (env.deliver batch.length event).result ≠ .processed) :
    Visited documentIdentity env (batch ++ [raw]) s' := by
  have hundone : ∀ i, s'.Undone i ↔ s.Undone i ∨ i = batch.length := fun i => by
    rcases hmarked with ⟨hl, hf⟩ | ⟨hl, hf⟩
    · simp [LoopState.Undone, hl, hf, or_assoc]
    · simp only [LoopState.Undone, hl, hf, List.mem_append, List.mem_singleton]
      exact or_right_comm
  have hlast : (batch ++ [raw])[batch.length]? = some raw := by simp
  constructor
  · intro key
    rw [hblocked, List.mem_append, h.blocked]
    constructor
    · rintro (⟨i, r, hi, hr, hkey⟩ | hkey)
      · exact ⟨i, r, (hundone i).mpr (.inl hi), getElem?_append hr raw, hkey⟩
      · exact ⟨batch.length, raw, (hundone _).mpr (.inr rfl), hlast, hkey⟩
    · rintro ⟨i, r, hi, hr, hkey⟩
      rcases (hundone i).mp hi with hi | rfl
      · rw [List.getElem?_append_left (h.undone_lt hi)] at hr
        exact .inl ⟨i, r, hi, hr, hkey⟩
      · rw [hlast] at hr
        cases hr
        exact .inr hkey
  · intro i hi
    rw [hprocessed] at hi
    exact h.processed_append raw (fun i => (hundone i).mp) hi
  · intro i hi
    rcases (hundone i).mp hi with hi | rfl
    · obtain ⟨r, hr, hd⟩ := h.undone i hi
      exact ⟨r, getElem?_append hr raw, hd⟩
    · exact ⟨raw, hlast, hresult⟩
  · intro p hp
    rw [hdeferred] at hp
    exact h.deferred_append raw (fun i hi => (hundone i).mpr (.inl hi)) hp
  · rw [List.length_append, List.length_singleton, List.range_succ, hprocessed, hdeferred]
    refine List.Perm.trans ?_ (h.covered.append_right [batch.length])
    rcases hmarked with ⟨hl, hf⟩ | ⟨hl, hf⟩
    · rw [hl, hf]
      simp only [List.append_assoc]
      refine .append_left _ (.append_left _ ?_)
      rw [← List.append_assoc s.failed]
      exact List.perm_append_comm
    · rw [hl, hf]
      simp only [List.append_assoc]
      exact .append_left _ (.append_left _ (.append_left _ List.perm_append_comm))

theorem Visited.defer (h : Visited documentIdentity env batch s) {raw : RawEntry D}
    (hwait : ∃ key ∈ raw.waitKeys documentIdentity batch.length, key ∈ s.blocked) :
    Visited documentIdentity env (batch ++ [raw]) (s.defer batch.length raw) := by
  have hlast : (batch ++ [raw])[batch.length]? = some raw := by simp
  constructor
  · intro key
    refine (h.blocked key).trans ⟨?_, ?_⟩
    · rintro ⟨i, r, hi, hr, hkey⟩
      exact ⟨i, r, hi, getElem?_append hr raw, hkey⟩
    · rintro ⟨i, r, hi, hr, hkey⟩
      rw [List.getElem?_append_left (h.undone_lt hi)] at hr
      exact ⟨i, r, hi, hr, hkey⟩
  · intro i hi
    exact h.processed_append raw (fun _ hu => .inl hu) hi
  · intro i hi
    obtain ⟨r, hr, hd⟩ := h.undone i hi
    exact ⟨r, getElem?_append hr raw, hd⟩
  · intro p hp
    rcases List.mem_append.mp hp with hp | hp
    · exact h.deferred_append raw (fun _ hu => hu) hp
    · cases List.mem_singleton.mp hp
      exact ⟨hlast, (h.waits_iff raw).mp hwait⟩
  · rw [List.length_append, List.length_singleton, List.range_succ]
    simp only [LoopState.defer, List.map_append, List.map_cons, List.map_nil, ← List.append_assoc]
    exact h.covered.append_right _

theorem Visited.process (h : Visited documentIdentity env batch s) {raw : RawEntry D}
    {event : OutboxEvent D} (hs : raw.sanitize = .ok event)
    (hd : (env.deliver batch.length event).result = .processed)
    (hwait : ¬ ∃ key ∈ raw.waitKeys documentIdentity batch.length, key ∈ s.blocked) :
    Visited documentIdentity env (batch ++ [raw])
      { s with processed := s.processed ++ [batch.length] } := by
  have hlast : (batch ++ [raw])[batch.length]? = some raw := by simp
  constructor
  · intro key
    refine (h.blocked key).trans ⟨?_, ?_⟩
    · rintro ⟨i, r, hi, hr, hkey⟩
      exact ⟨i, r, hi, getElem?_append hr raw, hkey⟩
    · rintro ⟨i, r, hi, hr, hkey⟩
      rw [List.getElem?_append_left (h.undone_lt hi)] at hr
      exact ⟨i, r, hi, hr, hkey⟩
  · intro i hi
    rcases List.mem_append.mp hi with hi | hi
    · exact h.processed_append raw (fun _ hu => .inl hu) hi
    · cases List.mem_singleton.mp hi
      refine ⟨raw, event, hlast, hs, hd, fun k hk hu hw => ?_⟩
      exact hwait ((h.waits_iff raw).mpr ⟨k, hk, hu, hw⟩)
  · intro i hi
    obtain ⟨r, hr, hd⟩ := h.undone i hi
    exact ⟨r, getElem?_append hr raw, hd⟩
  · intro p hp
    exact h.deferred_append raw (fun _ hu => hu) hp
  · rw [List.length_append, List.length_singleton, List.range_succ]
    refine List.Perm.trans ?_ (h.covered.append_right [batch.length])
    simp only [List.append_assoc]
    refine .append_left _ ?_
    rw [← List.append_assoc s.failed,
      ← List.append_assoc s.lost (s.failed ++ s.deferred.map Pending.index)]
    exact List.perm_append_comm

theorem Visited.visit (h : Visited documentIdentity env batch s) (raw : RawEntry D) :
    Visited documentIdentity env (batch ++ [raw])
      (visit documentIdentity env s batch.length raw) := by
  rcases visit_cases documentIdentity env s batch.length raw with
    ⟨hwait, hv⟩ | ⟨hwait, ⟨⟨e, hs⟩, hv⟩ | ⟨event, hs, hv⟩⟩
  · rw [hv]
    exact h.defer hwait
  · rw [hv]
    refine h.mark rfl rfl rfl (.inr ⟨rfl, rfl⟩) fun event hok => ?_
    rw [hs] at hok
    cases hok
  · rw [hv]
    have hblock : raw.blockKeys documentIdentity batch.length =
        outboxEntityOrderBlockKeys documentIdentity event := by
      rw [RawEntry.blockKeys, hs]
    have hevent : ∀ event', raw.sanitize = .ok event' → event' = event := fun event' hok => by
      rw [hs] at hok
      exact (Except.ok.inj hok).symm
    unfold LoopState.finish
    cases hd : (env.deliver batch.length event).result with
    | processed => exact h.process hs hd hwait
    | lost =>
      refine h.mark rfl rfl ?_ (.inl ⟨rfl, rfl⟩) fun event' hok => ?_
      · rw [hblock]
        rfl
      · rw [hevent event' hok, hd]
        exact DeliveryResult.noConfusion
    | failed error =>
      refine h.mark rfl rfl ?_ (.inr ⟨rfl, rfl⟩) fun event' hok => ?_
      · rw [hblock]
        rfl
      · rw [hevent event' hok, hd]
        exact DeliveryResult.noConfusion

end

theorem visited_eventLoop (env : Environment D) (batch : List (RawEntry D)) :
    Visited documentIdentity env batch (eventLoop documentIdentity env batch) := by
  induction batch using List.reverseRecOn with
  | nil =>
    constructor <;> simp [eventLoop, indexed, LoopState.init, LoopState.Undone]
  | append_singleton batch raw ih =>
    rw [eventLoop_snoc]
    exact ih.visit raw

/-! ## The order of the recovered values -/

theorem insertRecovery_nil (value : Pending D) : insertRecovery [] value = [value] := by
  simp [insertRecovery]

theorem insertRecovery_concat (ordered : List (Pending D)) (last value : Pending D) :
    insertRecovery (ordered ++ [last]) value =
      if value.index < last.index then insertRecovery ordered value ++ [last]
      else ordered ++ [last, value] := by
  unfold insertRecovery
  split <;> rename_i h
  · rw [List.rdropWhile_concat_pos _ _ _ (by simpa using h),
      List.rtakeWhile_concat_pos _ _ _ (by simpa using h)]
    simp
  · rw [List.rdropWhile_concat_neg _ _ _ (by simpa using h),
      List.rtakeWhile_concat_neg _ _ _ (by simpa using h)]
    simp

theorem perm_insertRecovery (ordered : List (Pending D)) (value : Pending D) :
    (insertRecovery ordered value).Perm (ordered ++ [value]) := by
  induction ordered using List.reverseRecOn with
  | nil => rw [insertRecovery_nil, List.nil_append]
  | append_singleton ordered last ih =>
    rw [insertRecovery_concat]
    split
    · refine (ih.append_right [last]).trans ?_
      rw [List.append_assoc, List.append_assoc]
      exact .append_left _ List.perm_append_comm
    · rw [List.append_assoc]
      rfl

theorem sorted_insertRecovery {ordered : List (Pending D)} (value : Pending D)
    (h : ordered.Pairwise fun a b => a.index ≤ b.index) :
    (insertRecovery ordered value).Pairwise fun a b => a.index ≤ b.index := by
  induction ordered using List.reverseRecOn with
  | nil =>
    rw [insertRecovery_nil]
    exact List.pairwise_singleton _ _
  | append_singleton ordered last ih =>
    obtain ⟨hordered, -, hlast⟩ := List.pairwise_append.mp h
    have hle : ∀ a ∈ ordered, a.index ≤ last.index :=
      fun a ha => hlast a ha last (List.mem_singleton_self _)
    rw [insertRecovery_concat]
    split <;> rename_i hlt
    · refine List.pairwise_append.mpr ⟨ih hordered, List.pairwise_singleton _ _, ?_⟩
      intro a ha b hb
      cases List.mem_singleton.mp hb
      rcases List.mem_append.mp ((perm_insertRecovery ordered value).mem_iff.mp ha) with ha | ha
      · exact hle a ha
      · cases List.mem_singleton.mp ha
        exact Nat.le_of_lt hlt
    · refine List.pairwise_append.mpr ⟨hordered, ?_, ?_⟩
      · simpa using Nat.le_of_not_lt hlt
      · intro a ha b hb
        have hal := hle a ha
        rcases List.mem_cons.mp hb with rfl | hb
        · exact hal
        · cases List.mem_singleton.mp hb
          omega

theorem perm_orderPendingOutboxRecoveries (values : List (Pending D)) :
    (orderPendingOutboxRecoveries values).Perm values := by
  induction values using List.reverseRecOn with
  | nil => rfl
  | append_singleton values value ih =>
    rw [orderPendingOutboxRecoveries, List.foldl_append]
    exact (perm_insertRecovery _ _).trans (ih.append_right _)

theorem sorted_orderPendingOutboxRecoveries (values : List (Pending D)) :
    (orderPendingOutboxRecoveries values).Pairwise fun a b => a.index ≤ b.index := by
  induction values using List.reverseRecOn with
  | nil => exact List.Pairwise.nil
  | append_singleton values value ih =>
    rw [orderPendingOutboxRecoveries, List.foldl_append]
    exact sorted_insertRecovery value ih

theorem sorted_settlement (opts : WorkerOptions) (env : Environment D) (usesLease : Bool)
    (failures : List (PendingFailure D)) (deferred : List (Pending D)) :
    (settleSearchSyncFailures opts env usesLease failures deferred).recovered.Pairwise
      fun a b => a.index ≤ b.index := by
  unfold settleSearchSyncFailures
  dsimp only
  split
  · exact List.Pairwise.nil
  · exact sorted_orderPendingOutboxRecoveries _

/-! ## The order of a run -/

section
variable {documentIdentity}

theorem Conflict.of_append {batch rest : List (RawEntry D)} {i j : Nat}
    (h : Conflict documentIdentity (batch ++ rest) i j) (hij : i < j) (hj : j < batch.length) :
    Conflict documentIdentity batch i j := by
  obtain ⟨ri, rj, hri, hrj, hkey⟩ := h
  rw [List.getElem?_append_left (hij.trans hj)] at hri
  rw [List.getElem?_append_left hj] at hrj
  exact ⟨ri, rj, hri, hrj, hkey⟩

theorem Conflict.append {batch : List (RawEntry D)} {i j : Nat}
    (h : Conflict documentIdentity batch i j) (rest : List (RawEntry D)) :
    Conflict documentIdentity (batch ++ rest) i j := by
  obtain ⟨ri, rj, hi, hj, hkey⟩ := h
  exact ⟨ri, rj, by rw [List.getElem?_append_left (List.getElem?_eq_some_iff.mp hi).1, hi],
    by rw [List.getElem?_append_left (List.getElem?_eq_some_iff.mp hj).1, hj], hkey⟩

/-- In a chained batch nothing is processed after a conflicting undelivered event. -/
theorem Visited.held {env : Environment D} {batch : List (RawEntry D)} {s : LoopState D}
    (h : Visited documentIdentity env batch s) (hchained : Chained documentIdentity batch)
    {i j : Nat} (hij : i < j) (hconflict : Conflict documentIdentity batch i j)
    (hi : i ∈ s.deferred.map Pending.index ∨ i ∈ s.failed) : j ∉ s.processed := by
  intro hj
  obtain ⟨-, -, -, -, -, hfree⟩ := h.processed j hj
  rcases hi with hi | hi
  · obtain ⟨p, hp, rfl⟩ := List.mem_map.mp hi
    obtain ⟨-, k, hk, hu, hwait⟩ := h.deferred p hp
    exact hfree k (hk.trans hij) hu (hchained k p.index j hk hij hwait hconflict)
  · exact hfree i hij (.inl hi) hconflict.waitsFor

theorem Chained.take {batch : List (RawEntry D)} (h : Chained documentIdentity batch) (n : Nat) :
    Chained documentIdentity (batch.take n) := by
  intro k i j hki hij hwait hconflict
  have hj : j < (batch.take n).length := by
    obtain ⟨_, _, _, hrj, -⟩ := hconflict
    exact (List.getElem?_eq_some_iff.mp hrj).1
  rw [← List.take_append_drop n batch] at h
  exact (h k i j hki hij (hwait.append _) (hconflict.append _)).of_append (hki.trans hij) hj

/-- The environment in which only the delivery of one index fails. -/
def failingAt (n : Nat) : Environment D where
  deliver i _ := ⟨none, if i = n then .failed ⟨"failed", false⟩ else .processed⟩
  failureThrows _ := false
  failedAt _ := 0
  retryAt _ := 0
  deadLetterFails := false
  retryFails _ := false

/-- When every entry is valid, only the failing index stays undelivered. -/
theorem Visited.undone_failingAt {batch : List (RawEntry D)} {s : LoopState D} {n i : Nat}
    (h : Visited documentIdentity (failingAt n) batch s)
    (hvalid : ∀ raw ∈ batch, ∃ event, raw.sanitize = .ok event) (hi : s.Undone i) : i = n := by
  obtain ⟨raw, hraw, hne⟩ := h.undone i hi
  obtain ⟨event, hs⟩ := hvalid raw (List.mem_of_getElem? hraw)
  by_contra hin
  exact hne event hs (by simp [failingAt, hin])

theorem Visited.mem_cases {env : Environment D} {batch : List (RawEntry D)} {s : LoopState D}
    (h : Visited documentIdentity env batch s) {i : Nat} (hi : i < batch.length) :
    i ∈ s.processed ∨ s.Undone i ∨ i ∈ s.deferred.map Pending.index := by
  have hmem := h.covered.mem_iff.mpr (List.mem_range.mpr hi)
  simp only [List.mem_append] at hmem
  rcases hmem with ((hmem | hmem) | hmem) | hmem
  · exact .inl hmem
  · exact .inr (.inl (.inr hmem))
  · exact .inr (.inl (.inl hmem))
  · exact .inr (.inr hmem)

/-- The failing index itself is attempted, and everything that waits for it is deferred. -/
theorem Visited.failingAt_cases {batch : List (RawEntry D)} {s : LoopState D} {n : Nat}
    (h : Visited documentIdentity (failingAt n) batch s)
    (hvalid : ∀ raw ∈ batch, ∃ event, raw.sanitize = .ok event) (hn : n < batch.length) :
    s.Undone n ∧ ∀ i, n < i → i < batch.length →
      (WaitsFor documentIdentity batch n i ↔ i ∈ s.deferred.map Pending.index) ∧
        (¬ WaitsFor documentIdentity batch n i → i ∈ s.processed) := by
  have hdeferred : ∀ i ∈ s.deferred.map Pending.index,
      n < i ∧ WaitsFor documentIdentity batch n i := by
    intro i hi
    obtain ⟨p, hp, rfl⟩ := List.mem_map.mp hi
    obtain ⟨-, k, hk, hu, hwait⟩ := h.deferred p hp
    obtain rfl := h.undone_failingAt hvalid hu
    exact ⟨hk, hwait⟩
  have hundone : s.Undone n := by
    rcases h.mem_cases hn with hp | hu | hd
    · obtain ⟨raw, event, hraw, hs, hd, -⟩ := h.processed n hp
      simp [failingAt] at hd
    · exact hu
    · exact absurd (hdeferred n hd).1 (Nat.lt_irrefl n)
  refine ⟨hundone, fun i hni hi => ⟨⟨fun hwait => ?_, fun hd => (hdeferred i hd).2⟩, ?_⟩⟩
  · rcases h.mem_cases hi with hp | hu | hd
    · obtain ⟨-, -, -, -, -, hfree⟩ := h.processed i hp
      exact absurd hwait (hfree n hni hundone)
    · exact absurd (h.undone_failingAt hvalid hu) (Nat.ne_of_gt hni)
    · exact hd
  · intro hwait
    rcases h.mem_cases hi with hp | hu | hd
    · exact hp
    · exact absurd (h.undone_failingAt hvalid hu) (Nat.ne_of_gt hni)
    · exact absurd (hdeferred i hd).2 hwait

end

/-- Three events of one Datastore row: two name it by document identities of different namespaces,
the one between them by an ancestor key without namespace. -/
def aliasedBatch : List (RawEntry Unit) :=
  let event : OutboxEvent Unit :=
    { id := "a", model := "post", modelId := some (.number 1)
      modelIdentity := some "datastore:n1", modelDatastoreAncestor := none
      modelDatastoreScope := none, operation := .delete, data := none
      reconcileFromStore := false, createdAt := 0, sequence := none, version := some 0
      leaseToken := none, leaseExpiresAt := none, deliveryAttempts := none, availableAt := none
      deadLetteredAt := none, lastDeliveryError := none }
  [.event event,
    .event { event with
      id := "b", modelIdentity := none, operation := .update
      modelDatastoreAncestor := some ⟨none, [("user", .number 7)]⟩ },
    .event { event with id := "c", modelIdentity := some "datastore:n2" }]

def hashedIdentity (_ : String) (_ : Option String) (_ : EntityId) (_ : Option DatastoreKey) :
    String := "datastore:hash"

end ActiveTs.Outbox
