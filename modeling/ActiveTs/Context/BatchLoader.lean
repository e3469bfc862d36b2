import ActiveTs.EntityIds.Keys
import ActiveTs.Lib.JsMap
import ActiveTs.Lib.Steps
import Mathlib.Data.List.Perm.Basic
import Mathlib.Data.List.Range

/-! # Loading by id in batches

Calls of `load` wait in a map keyed by their id until a microtask takes them all; the batch is
loaded in chunks, one after another, while further calls wait for the next microtask. -/

namespace ActiveTs.BatchLoader

open EntityIds (EntityId entityIdKey entityIdKey_inj)
open Utf16 (Units)

variable {T : Type u} {E : Type v}

/-! ## The loader -/

/-- An id and the promises that wait for it, by their numbers. -/
structure PendingBatch where
  id : EntityId
  waiters : List Nat
  deriving DecidableEq

/-- How a promise was settled. -/
inductive Outcome (T : Type u) (E : Type v)
  | resolved (value : Option T)
  | rejected (error : E)
  deriving DecidableEq

structure Loader where
  maxSize : Nat
  distinctResults : Bool
  positive : 0 < maxSize

/-- A flush that waits for the answer to its current chunk. -/
structure Flush where
  number : Nat
  chunk : List PendingBatch
  rest : List (List PendingBatch)

structure State (T : Type u) (E : Type v) where
  pending : JsMap Units PendingBatch
  scheduled : Bool
  /-- The calls of `flush` in the microtask queue. -/
  microtasks : Nat
  /-- How many flushes took a batch. -/
  flushes : Nat
  running : List Flush
  /-- The id that each promise was returned for. -/
  promises : List EntityId
  /-- The calls of `resolve` and `reject`. -/
  settled : List (Nat × Outcome T E)
  /-- The calls of `loadMany`, with the flush each belongs to. -/
  requests : List (Nat × List EntityId)

def initial : State T E where
  pending := .empty
  scheduled := false
  microtasks := 0
  flushes := 0
  running := []
  promises := []
  settled := []
  requests := []

def addWaiter (pending : JsMap Units PendingBatch) (key : Units) (id : EntityId) (promise : Nat) :
    JsMap Units PendingBatch :=
  match pending.get? key with
  | some existing => pending.set key { existing with waiters := existing.waiters ++ [promise] }
  | none => pending.set key { id, waiters := [promise] }

def schedule (s : State T E) : State T E :=
  if s.scheduled then s else { s with scheduled := true, microtasks := s.microtasks + 1 }

/-- An unsafe id throws out of `load`, and no promise is returned. -/
def load (s : State T E) (id : EntityId) : State T E :=
  match entityIdKey id with
  | .error _ => s
  | .ok key =>
    schedule { s with
      pending := addWaiter s.pending key id s.promises.length
      promises := s.promises ++ [id] }

def pendingBatches (pending : JsMap Units PendingBatch) (distinctResults : Bool) :
    List PendingBatch :=
  (pending.entries.map Prod.snd).flatMap fun item =>
    if distinctResults then item.waiters.map fun waiter => { id := item.id, waiters := [waiter] }
    else [item]

def chunksFrom (size : Nat) : Nat → List α → List (List α)
  | 0, _ => []
  | _ + 1, [] => []
  | fuel + 1, item :: items =>
    (item :: items).take size :: chunksFrom size fuel ((item :: items).drop size)

/-- One step of the loop for each chunk, so that there are no more steps than items. -/
def chunkItems (items : List α) (size : Nat) : List (List α) := chunksFrom size items.length items

def chunkIds (chunk : List PendingBatch) : List EntityId := chunk.map PendingBatch.id

/-- The loop over the chunks, up to the next call of `loadMany`. -/
def nextChunk (number : Nat) : List (List PendingBatch) → List Flush
  | [] => []
  | chunk :: rest => [{ number, chunk, rest }]

def Flush.request (f : Flush) : Nat × List EntityId := (f.number, chunkIds f.chunk)

def flush (loader : Loader) (s : State T E) : State T E :=
  let batch := pendingBatches s.pending loader.distinctResults
  let started := nextChunk s.flushes (chunkItems batch loader.maxSize)
  { s with
    scheduled := false
    microtasks := s.microtasks - 1
    pending := .empty
    flushes := s.flushes + 1
    running := s.running ++ started
    requests := s.requests ++ started.map Flush.request }

/-- `values[index] ?? null`, or the error of the call. -/
def outcome (result : Except E (List (Option T))) (index : Nat) : Outcome T E :=
  match result with
  | .ok values => .resolved (values[index]?.getD none)
  | .error error => .rejected error

/-- Settle the waiters of a chunk by the positions of its items. -/
def settle (chunk : List PendingBatch) (result : Except E (List (Option T))) :
    List (Nat × Outcome T E) :=
  chunk.zipIdx.flatMap fun entry => entry.1.waiters.map fun waiter => (waiter, outcome result entry.2)

/-- The flush `f` goes on with the answer to its chunk. -/
def answer (s : State T E) (before : List Flush) (f : Flush) (after : List Flush)
    (result : Except E (List (Option T))) : State T E :=
  { s with
    running := before ++ nextChunk f.number f.rest ++ after
    settled := s.settled ++ settle f.chunk result
    requests := s.requests ++ (nextChunk f.number f.rest).map Flush.request }

/-! ## Runs -/

/-- A caller loads an id, the microtask runs, or `loadMany` answers a call. -/
inductive Event (T : Type u) (E : Type v)
  | load (id : EntityId)
  | flush
  | answer (number : Nat) (ids : List EntityId) (result : Except E (List (Option T)))

inductive Step (loader : Loader) : State T E → Event T E → State T E → Prop
  | load (id : EntityId) : Step loader s (.load id) (load s id)
  | flush (queued : 0 < s.microtasks) : Step loader s .flush (flush loader s)
  | answer (running : s.running = before ++ f :: after) :
    Step loader s (.answer f.number (chunkIds f.chunk) result) (answer s before f after result)

/-- Nothing is queued and no call of `loadMany` is open. -/
def Quiet (s : State T E) : Prop := s.microtasks = 0 ∧ s.running = []

/-- The ids that one flush asked for. -/
def requested (number : Nat) (requests : List (Nat × List EntityId)) : List EntityId :=
  (requests.filter fun request => request.1 = number).flatMap Prod.snd

/-- A bound of the steps that the loader can still take without a new call. -/
def work (loader : Loader) (s : State T E) : Nat :=
  s.microtasks + (pendingBatches s.pending loader.distinctResults).length +
    (s.running.map fun f => 1 + f.rest.length).sum

/-! ## Chunks -/

theorem chunksFrom_flatten {size : Nat} (hsize : 0 < size) {fuel : Nat} {items : List α}
    (hfuel : items.length ≤ fuel) :
    (chunksFrom size fuel items).flatten = items ∧ (chunksFrom size fuel items).length ≤ fuel := by
  induction fuel generalizing items with
  | zero =>
    cases List.length_eq_zero_iff.mp (Nat.le_zero.mp hfuel)
    exact ⟨rfl, Nat.le_refl 0⟩
  | succ fuel ih =>
    cases items with
    | nil => exact ⟨rfl, Nat.zero_le _⟩
    | cons item items =>
      have hrest : ((item :: items).drop size).length ≤ fuel := by
        rw [List.length_drop]
        omega
      obtain ⟨hflat, hlen⟩ := ih hrest
      rw [chunksFrom, List.flatten_cons, hflat, List.take_append_drop, List.length_cons]
      exact ⟨rfl, Nat.succ_le_succ hlen⟩

theorem chunkItems_flatten {size : Nat} (hsize : 0 < size) (items : List α) :
    (chunkItems items size).flatten = items :=
  (chunksFrom_flatten hsize (Nat.le_refl _)).1

theorem length_chunkItems_le {size : Nat} (hsize : 0 < size) (items : List α) :
    (chunkItems items size).length ≤ items.length :=
  (chunksFrom_flatten hsize (Nat.le_refl _)).2

/-! ## The items that are waited for -/

def Flush.items (f : Flush) : List PendingBatch := f.chunk ++ f.rest.flatten

theorem nextChunk_items (number : Nat) (chunks : List (List PendingBatch)) :
    (nextChunk number chunks).flatMap Flush.items = chunks.flatten := by
  cases chunks with
  | nil => rfl
  | cons chunk rest => exact List.append_nil _

/-- The items of the batch that the next flush takes and those of the running ones. -/
def State.items (loader : Loader) (s : State T E) : List PendingBatch :=
  pendingBatches s.pending loader.distinctResults ++ s.running.flatMap Flush.items

theorem waiters_pendingBatches (pending : JsMap Units PendingBatch) (distinctResults : Bool) :
    (pendingBatches pending distinctResults).flatMap PendingBatch.waiters =
      pending.entries.flatMap fun entry => entry.2.waiters := by
  rw [pendingBatches, List.flatMap_assoc, List.flatMap_map]
  apply List.flatMap_congr
  intro entry _
  cases distinctResults
  · exact List.append_nil _
  · rw [if_pos rfl, List.flatMap_map]
    exact List.flatMap_singleton' _

/-- An item of the batch is a pending one, or one waiter of it. -/
theorem mem_pendingBatches {pending : JsMap Units PendingBatch} {item : PendingBatch}
    (h : item ∈ pendingBatches pending distinctResults) :
    ∃ entry ∈ pending.entries, item.id = entry.2.id ∧ item.waiters ⊆ entry.2.waiters := by
  obtain ⟨own, hown, hitem⟩ := List.mem_flatMap.mp h
  obtain ⟨entry, hentry, rfl⟩ := List.mem_map.mp hown
  refine ⟨entry, hentry, ?_⟩
  cases distinctResults
  · cases List.mem_singleton.mp hitem
    exact ⟨rfl, List.Subset.refl _⟩
  · obtain ⟨waiter, hwaiter, rfl⟩ := List.mem_map.mp hitem
    refine ⟨rfl, ?_⟩
    intro other hother
    cases List.mem_singleton.mp hother
    exact hwaiter

theorem pendingBatches_covers {pending : JsMap Units PendingBatch} {entry : Units × PendingBatch}
    (h : entry ∈ pending.entries) (distinctResults : Bool) (waiter : Nat)
    (hwaiter : waiter ∈ entry.2.waiters) :
    ∃ item ∈ pendingBatches pending distinctResults, item.id = entry.2.id ∧
      waiter ∈ item.waiters := by
  have hmem : entry.2 ∈ pending.entries.map Prod.snd := List.mem_map.mpr ⟨entry, h, rfl⟩
  cases distinctResults
  · exact ⟨entry.2, List.mem_flatMap.mpr ⟨entry.2, hmem, List.mem_singleton.mpr rfl⟩, rfl, hwaiter⟩
  · refine ⟨⟨entry.2.id, [waiter]⟩, List.mem_flatMap.mpr ⟨entry.2, hmem, ?_⟩, rfl,
      List.mem_singleton.mpr rfl⟩
    exact List.mem_map.mpr ⟨waiter, hwaiter, rfl⟩

theorem pendingBatches_nil_of_empty {pending : JsMap Units PendingBatch}
    (h : pending.entries = []) : pendingBatches pending distinctResults = [] := by
  rw [pendingBatches, h]
  rfl

/-! ### A new waiter -/

theorem count_insertEntry_new {key : Units} {entries : List (Units × PendingBatch)} (id : EntityId)
    (promise : Nat) (h : JsMap.lookup key entries = none) (p : Nat) :
    ((JsMap.insertEntry key ⟨id, [promise]⟩ entries).flatMap fun entry => entry.2.waiters).count p =
      (entries.flatMap fun entry => entry.2.waiters).count p + [promise].count p := by
  induction entries with
  | nil => simp [JsMap.insertEntry]
  | cons entry entries ih =>
    obtain ⟨own, item⟩ := entry
    by_cases hkey : own = key
    · simp [JsMap.lookup, hkey] at h
    · simp only [JsMap.lookup, if_neg hkey] at h
      simp only [JsMap.insertEntry, if_neg hkey, List.flatMap_cons, List.count_append, ih h]
      omega

theorem count_insertEntry_existing {key : Units} {entries : List (Units × PendingBatch)}
    {existing : PendingBatch} (promise : Nat) (h : JsMap.lookup key entries = some existing)
    (p : Nat) :
    ((JsMap.insertEntry key { existing with waiters := existing.waiters ++ [promise] }
        entries).flatMap fun entry => entry.2.waiters).count p =
      (entries.flatMap fun entry => entry.2.waiters).count p + [promise].count p := by
  induction entries with
  | nil => cases h
  | cons entry entries ih =>
    obtain ⟨own, item⟩ := entry
    by_cases hkey : own = key
    · simp only [JsMap.lookup, if_pos hkey, Option.some.injEq] at h
      subst h
      simp only [JsMap.insertEntry, if_pos hkey, List.flatMap_cons, List.count_append]
      omega
    · simp only [JsMap.lookup, if_neg hkey] at h
      simp only [JsMap.insertEntry, if_neg hkey, List.flatMap_cons, List.count_append, ih h]
      omega

theorem count_addWaiter (pending : JsMap Units PendingBatch) (key : Units) (id : EntityId)
    (promise p : Nat) :
    ((addWaiter pending key id promise).entries.flatMap fun entry => entry.2.waiters).count p =
      (pending.entries.flatMap fun entry => entry.2.waiters).count p + [promise].count p := by
  rw [addWaiter]
  cases hget : pending.get? key with
  | none => exact count_insertEntry_new id promise hget p
  | some existing => exact count_insertEntry_existing promise hget p

/-- The entry of the key holds the new waiter under the id it had; the others are as before. -/
theorem mem_addWaiter {pending : JsMap Units PendingBatch} {key : Units} {id : EntityId}
    {promise : Nat} {entry : Units × PendingBatch}
    (h : entry ∈ (addWaiter pending key id promise).entries) :
    entry ∈ pending.entries ∨ entry = (key, ⟨id, [promise]⟩) ∨
      ∃ existing, (key, existing) ∈ pending.entries ∧
        entry = (key, { existing with waiters := existing.waiters ++ [promise] }) := by
  obtain ⟨own, item⟩ := entry
  have hget := JsMap.mem_entries_iff.mp h
  rw [addWaiter] at hget
  cases hold : pending.get? key with
  | none =>
    rw [hold] at hget
    simp only [JsMap.get?_set] at hget
    split at hget
    · rename_i heq
      cases hget
      exact .inr (.inl (by rw [heq]))
    · exact .inl (JsMap.mem_entries_iff.mpr hget)
  | some existing =>
    rw [hold] at hget
    simp only [JsMap.get?_set] at hget
    split at hget
    · rename_i heq
      cases hget
      exact .inr (.inr ⟨existing, JsMap.mem_entries_iff.mpr hold, by rw [heq]⟩)
    · exact .inl (JsMap.mem_entries_iff.mpr hget)

/-! ## What holds in every state -/

/-- `loadMany` answered a call that had the id of the promise at the position of the outcome. -/
def Answered (es : List (Event T E)) (s : State T E) (promise : Nat) (o : Outcome T E) : Prop :=
  ∃ id number ids result index, s.promises[promise]? = some id ∧
    Event.answer number ids result ∈ es ∧ (number, ids) ∈ s.requests ∧
    ids[index]? = some id ∧ o = outcome result index

/-- The ids that the running flushes of this number have not asked for yet. -/
def ahead (number : Nat) (running : List Flush) : List EntityId :=
  (running.filter fun f => f.number = number).flatMap fun f => f.rest.flatten.map PendingBatch.id

structure Inv (loader : Loader) (es : List (Event T E)) (s : State T E) : Prop where
  scheduled : s.microtasks = if s.scheduled then 1 else 0
  queued : s.pending.entries ≠ [] → s.scheduled = true
  keyed : ∀ entry ∈ s.pending.entries, entityIdKey entry.2.id = .ok entry.1
  held : ∀ p, ((s.items loader).flatMap PendingBatch.waiters).count p +
    (s.settled.map Prod.fst).count p = (List.range s.promises.length).count p
  owned : ∀ item ∈ s.items loader, ∀ waiter ∈ item.waiters, s.promises[waiter]? = some item.id
  asked : ∀ f ∈ s.running, f.request ∈ s.requests
  numbered : ∀ request ∈ s.requests, request.1 < s.flushes
  answered : ∀ promise o, (promise, o) ∈ s.settled → Answered es s promise o
  distinct : loader.distinctResults = false → ∀ number,
    (requested number s.requests ++ ahead number s.running).Nodup

variable {loader : Loader}

theorem Inv.initial : Inv loader [] (initial : State T E) where
  scheduled := rfl
  queued := by
    intro h
    exact absurd rfl h
  keyed := by
    intro entry hentry
    cases hentry
  held := by
    intro p
    rfl
  owned := by
    intro item hitem
    cases hitem
  asked := by
    intro f hf
    cases hf
  numbered := by
    intro request hrequest
    cases hrequest
  answered := by
    intro promise o h
    cases h
  distinct := by
    intro _ number
    exact List.nodup_nil

theorem getElem?_prefix {l l' : List α} (h : l <+: l') {a : α} {index : Nat}
    (ha : l[index]? = some a) : l'[index]? = some a := by
  obtain ⟨rest, rfl⟩ := h
  rw [List.getElem?_append_left (List.getElem?_eq_some_iff.mp ha).1]
  exact ha

theorem Answered.mono {es : List (Event T E)} {s t : State T E} (h : Answered es s promise o)
    (hpromises : s.promises <+: t.promises) (hrequests : s.requests <+: t.requests) (e : Event T E) :
    Answered (es ++ [e]) t promise o := by
  obtain ⟨id, number, ids, result, index, hid, hanswer, hrequest, hindex, ho⟩ := h
  refine ⟨id, number, ids, result, index, ?_, List.mem_append_left _ hanswer, ?_, hindex, ho⟩
  · exact getElem?_prefix hpromises hid
  · exact hrequests.subset hrequest

/-! ### A call of `load` -/

theorem schedule_eq (s : State T E) :
    schedule s = { s with
      scheduled := true
      microtasks := if s.scheduled then s.microtasks else s.microtasks + 1 } := by
  rw [schedule]
  split
  · rename_i hscheduled
    rw [← hscheduled]
  · rfl

theorem Inv.load {es : List (Event T E)} {s : State T E} (h : Inv loader es s) (id : EntityId) :
    Inv loader (es ++ [.load id]) (load s id) := by
  rw [BatchLoader.load]
  cases hkey : entityIdKey id with
  | error =>
    exact { h with
      answered := fun promise o hmem =>
        (h.answered promise o hmem).mono (List.prefix_refl _) (List.prefix_refl _) _ }
  | ok key =>
    have hgrows : s.promises <+: s.promises ++ [id] := List.prefix_append _ _
    have hentry : ∀ entry ∈ (addWaiter s.pending key id s.promises.length).entries,
        entityIdKey entry.2.id = .ok entry.1 ∧ ∀ waiter ∈ entry.2.waiters,
          (s.promises ++ [id])[waiter]? = some entry.2.id := by
      intro entry hmem
      have hnew : (s.promises ++ [id])[s.promises.length]? = some id := List.getElem?_concat_length
      have hold : ∀ entry ∈ s.pending.entries, ∀ waiter ∈ entry.2.waiters,
          (s.promises ++ [id])[waiter]? = some entry.2.id := by
        intro entry hmem waiter hwaiter
        obtain ⟨item, hitem, hid, hin⟩ :=
          pendingBatches_covers hmem loader.distinctResults waiter hwaiter
        rw [← hid]
        exact getElem?_prefix hgrows (h.owned item (List.mem_append_left _ hitem) waiter hin)
      rcases mem_addWaiter hmem with hmem | rfl | ⟨existing, hexisting, rfl⟩
      · exact ⟨h.keyed entry hmem, hold entry hmem⟩
      · refine ⟨hkey, ?_⟩
        intro waiter hwaiter
        cases List.mem_singleton.mp hwaiter
        exact hnew
      · have hsafe := h.keyed _ hexisting
        refine ⟨hsafe, ?_⟩
        intro waiter hwaiter
        rcases List.mem_append.mp hwaiter with hwaiter | hwaiter
        · exact hold _ hexisting waiter hwaiter
        · -- One key is one id.
          have hsame : id = existing.id := entityIdKey_inj hkey hsafe
          cases List.mem_singleton.mp hwaiter
          rw [hnew, hsame]
    dsimp only
    rw [schedule_eq]
    constructor
    case scheduled =>
      have hscheduled := h.scheduled
      dsimp only
      cases hs : s.scheduled <;> simp_all
    case queued =>
      intro _
      rfl
    case keyed =>
      intro entry hmem
      exact (hentry entry hmem).1
    case held =>
      intro p
      have hheld := h.held p
      simp only [State.items, List.flatMap_append, List.count_append, waiters_pendingBatches] at hheld
      simp only [State.items, List.flatMap_append, List.count_append, waiters_pendingBatches,
        count_addWaiter, List.length_append, List.length_singleton, List.range_succ]
      omega
    case owned =>
      intro item hitem waiter hwaiter
      rcases List.mem_append.mp hitem with hitem | hitem
      · obtain ⟨entry, hmem, hid, hsub⟩ := mem_pendingBatches hitem
        rw [hid]
        exact (hentry entry hmem).2 waiter (hsub hwaiter)
      · exact getElem?_prefix hgrows
          (h.owned item (List.mem_append_right _ hitem) waiter hwaiter)
    case asked => exact h.asked
    case numbered => exact h.numbered
    case answered =>
      intro promise o hmem
      apply (h.answered promise o hmem).mono
      · exact hgrows
      · exact List.prefix_refl _
    case distinct => exact h.distinct

/-! ### A flush -/

theorem requested_append (number : Nat) (requests requests' : List (Nat × List EntityId)) :
    requested number (requests ++ requests') =
      requested number requests ++ requested number requests' := by
  rw [requested, List.filter_append, List.flatMap_append]
  rfl

theorem ahead_append (number : Nat) (running running' : List Flush) :
    ahead number (running ++ running') = ahead number running ++ ahead number running' := by
  rw [ahead, List.filter_append, List.flatMap_append]
  rfl

/-- A flush asks for the next chunk, and has the others ahead. -/
theorem nextChunk_asks (number own : Nat) (chunks : List (List PendingBatch)) :
    requested number ((nextChunk own chunks).map Flush.request) ++
        ahead number (nextChunk own chunks) =
      if own = number then chunks.flatten.map PendingBatch.id else [] := by
  cases chunks with
  | nil => simp [nextChunk, requested, ahead]
  | cons chunk rest =>
    by_cases h : own = number
    · simp [nextChunk, requested, ahead, Flush.request, chunkIds, h]
    · simp [nextChunk, requested, ahead, Flush.request, h]

theorem ahead_singleton (number : Nat) (f : Flush) :
    ahead number [f] = if f.number = number then f.rest.flatten.map PendingBatch.id else [] := by
  by_cases h : f.number = number
  · simp [ahead, h]
  · simp [ahead, h]

theorem nextChunk_number {own : Nat} {chunks : List (List PendingBatch)} {f : Flush}
    (h : f ∈ nextChunk own chunks) : f.number = own := by
  cases chunks with
  | nil => cases h
  | cons chunk rest =>
    cases List.mem_singleton.mp h
    rfl

theorem requested_of_fresh {number : Nat} {requests : List (Nat × List EntityId)}
    (h : ∀ request ∈ requests, request.1 < number) : requested number requests = [] := by
  have hnone : (requests.filter fun request => request.1 = number) = [] := by
    rw [List.filter_eq_nil_iff]
    intro request hrequest
    have := h request hrequest
    simp only [decide_eq_true_eq]
    omega
  rw [requested, hnone]
  rfl

theorem ahead_of_fresh {number : Nat} {running : List Flush}
    (h : ∀ f ∈ running, f.number < number) : ahead number running = [] := by
  have hnone : (running.filter fun f => f.number = number) = [] := by
    rw [List.filter_eq_nil_iff]
    intro f hf
    have := h f hf
    simp only [decide_eq_true_eq]
    omega
  rw [ahead, hnone]
  rfl

/-- Different keys are different ids. -/
theorem nodup_ids {pending : JsMap Units PendingBatch}
    (h : ∀ entry ∈ pending.entries, entityIdKey entry.2.id = .ok entry.1) :
    ((pendingBatches pending false).map PendingBatch.id).Nodup := by
  have hitems : pendingBatches pending false = pending.entries.map Prod.snd :=
    List.flatMap_singleton' _
  have hkeys : (pending.entries.map Prod.snd).map (fun item => entityIdKey item.id) =
      (pending.entries.map Prod.fst).map Except.ok := by
    rw [List.map_map, List.map_map]
    exact List.map_congr_left h
  rw [hitems]
  apply List.Nodup.of_map entityIdKey
  rw [List.map_map]
  have hnodup :
      ((pending.entries.map Prod.fst).map (@Except.ok EntityIds.ValidationError Units)).Nodup :=
    pending.nodup.map (fun a b => Except.ok.inj)
  rw [← hkeys] at hnodup
  exact hnodup

/-- The batch becomes the chunks of a running flush. -/
theorem flush_items (s : State T E) :
    ((flush loader s).items loader).Perm (s.items loader) := by
  have hitems : (flush loader s).items loader =
      s.running.flatMap Flush.items ++ pendingBatches s.pending loader.distinctResults := by
    rw [State.items, flush]
    dsimp only
    rw [List.flatMap_append, nextChunk_items, chunkItems_flatten loader.positive]
    rfl
  rw [hitems]
  exact List.perm_append_comm

theorem Inv.running_lt {es : List (Event T E)} {s : State T E} (h : Inv loader es s) :
    ∀ f ∈ s.running, f.number < s.flushes := by
  intro f hf
  exact h.numbered _ (h.asked f hf)

theorem Inv.flush {es : List (Event T E)} {s : State T E} (h : Inv loader es s)
    (hqueued : 0 < s.microtasks) : Inv loader (es ++ [.flush]) (flush loader s) := by
  have hscheduled := h.scheduled
  constructor
  case scheduled =>
    rw [BatchLoader.flush]
    cases hs : s.scheduled
    · rw [hs] at hscheduled
      exact absurd hscheduled (Nat.pos_iff_ne_zero.mp hqueued)
    · rw [hs] at hscheduled
      dsimp only
      rw [hscheduled]
      rfl
  case queued =>
    intro hne
    exact absurd rfl hne
  case keyed =>
    intro entry hentry
    cases hentry
  case held =>
    intro p
    rw [((flush_items s).flatMap_right _).count_eq p]
    exact h.held p
  case owned =>
    intro item hitem
    exact h.owned item ((flush_items s).mem_iff.mp hitem)
  case asked =>
    intro f hf
    rcases List.mem_append.mp hf with hf | hf
    · exact List.mem_append_left _ (h.asked f hf)
    · exact List.mem_append_right _ (List.mem_map_of_mem hf)
  case numbered =>
    intro request hrequest
    rcases List.mem_append.mp hrequest with hrequest | hrequest
    · exact Nat.lt_succ_of_lt (h.numbered request hrequest)
    · obtain ⟨f, hf, rfl⟩ := List.mem_map.mp hrequest
      exact Nat.lt_succ_of_le (Nat.le_of_eq (nextChunk_number hf))
  case answered =>
    intro promise o hmem
    apply (h.answered promise o hmem).mono
    · exact List.prefix_refl _
    · exact List.prefix_append _ _
  case distinct =>
    intro hdistinct number
    have hasks := nextChunk_asks number s.flushes
      (chunkItems (pendingBatches s.pending loader.distinctResults) loader.maxSize)
    rw [chunkItems_flatten loader.positive] at hasks
    have hcount : ∀ a, (requested number (BatchLoader.flush loader s).requests ++
        ahead number (BatchLoader.flush loader s).running).count a =
          (requested number s.requests ++ ahead number s.running).count a +
            (if s.flushes = number then (pendingBatches s.pending loader.distinctResults).map
              PendingBatch.id else []).count a := by
      intro a
      rw [← hasks]
      simp only [BatchLoader.flush, requested_append, ahead_append, List.count_append]
      omega
    by_cases hnumber : s.flushes = number
    · -- The number is new, so that the batch is all that this flush asks for.
      subst hnumber
      rw [requested_of_fresh h.numbered, ahead_of_fresh h.running_lt] at hcount
      have hids := nodup_ids h.keyed
      rw [← hdistinct] at hids
      rw [List.nodup_iff_count_le_one] at hids ⊢
      intro a
      rw [hcount, if_pos rfl]
      simpa using hids a
    · have hold := h.distinct hdistinct number
      rw [List.nodup_iff_count_le_one] at hold ⊢
      intro a
      rw [hcount, if_neg hnumber]
      exact hold a

/-! ### An answer -/

theorem settle_fst (chunk : List PendingBatch) (result : Except E (List (Option T))) :
    (settle chunk result).map Prod.fst = chunk.flatMap PendingBatch.waiters := by
  have hwaiters : ∀ k, ((chunk.zipIdx k).flatMap fun entry =>
      entry.1.waiters.map fun waiter => (waiter, outcome result entry.2)).map Prod.fst =
        chunk.flatMap PendingBatch.waiters := by
    induction chunk with
    | nil =>
      intro k
      rfl
    | cons item chunk ih =>
      intro k
      rw [List.zipIdx_cons, List.flatMap_cons, List.map_append, ih, List.map_map, List.flatMap_cons]
      congr 1
      exact List.map_id _
  exact hwaiters 0

theorem mem_settle {chunk : List PendingBatch} {result : Except E (List (Option T))}
    (h : (promise, o) ∈ settle chunk result) :
    ∃ index item, chunk[index]? = some item ∧ promise ∈ item.waiters ∧ o = outcome result index := by
  obtain ⟨⟨item, index⟩, hentry, hmem⟩ := List.mem_flatMap.mp h
  obtain ⟨waiter, hwaiter, heq⟩ := List.mem_map.mp hmem
  cases heq
  exact ⟨index, item, List.mem_zipIdx_iff_getElem?.mp hentry, hwaiter, rfl⟩

theorem answer_items {s : State T E} {before after : List Flush} {f : Flush}
    (h : s.running = before ++ f :: after) (result : Except E (List (Option T))) :
    (s.items loader).Perm (f.chunk ++ (answer s before f after result).items loader) := by
  rw [List.perm_iff_count]
  intro item
  have hrest := congrArg (List.count item) (nextChunk_items f.number f.rest)
  simp only [State.items, answer, h, Flush.items, List.flatMap_append, List.flatMap_cons,
    List.count_append] at hrest ⊢
  omega

theorem Inv.answer {es : List (Event T E)} {s : State T E} (h : Inv loader es s)
    (hrunning : s.running = before ++ f :: after) (result : Except E (List (Option T))) :
    Inv loader (es ++ [.answer f.number (chunkIds f.chunk) result])
      (answer s before f after result) := by
  have hf : f ∈ s.running := by
    rw [hrunning]
    exact List.mem_append_right _ List.mem_cons_self
  have hgrows : s.requests <+: (BatchLoader.answer s before f after result).requests :=
    List.prefix_append _ _
  constructor
  case scheduled => exact h.scheduled
  case queued => exact h.queued
  case keyed => exact h.keyed
  case held =>
    intro p
    have hheld := h.held p
    rw [((answer_items hrunning result).flatMap_right _).count_eq p, List.flatMap_append,
      List.count_append] at hheld
    simp only [BatchLoader.answer, List.map_append, List.count_append, settle_fst] at hheld ⊢
    omega
  case owned =>
    intro item hitem
    exact h.owned item ((answer_items hrunning result).mem_iff.mpr (List.mem_append_right _ hitem))
  case asked =>
    intro g hg
    rw [BatchLoader.answer] at hg
    simp only [List.mem_append] at hg
    rcases hg with (hg | hg) | hg
    · refine hgrows.subset (h.asked g ?_)
      rw [hrunning]
      exact List.mem_append_left _ hg
    · exact List.mem_append_right _ (List.mem_map_of_mem hg)
    · refine hgrows.subset (h.asked g ?_)
      rw [hrunning]
      exact List.mem_append_right _ (List.mem_cons_of_mem _ hg)
  case numbered =>
    intro request hrequest
    rcases List.mem_append.mp hrequest with hrequest | hrequest
    · exact h.numbered request hrequest
    · obtain ⟨g, hg, rfl⟩ := List.mem_map.mp hrequest
      have hown := h.running_lt f hf
      rw [← nextChunk_number hg] at hown
      exact hown
  case answered =>
    intro promise o hmem
    rcases List.mem_append.mp hmem with hmem | hmem
    · apply (h.answered promise o hmem).mono
      · exact List.prefix_refl _
      · exact hgrows
    · obtain ⟨index, item, hitem, hwaiter, ho⟩ := mem_settle hmem
      have howned := h.owned item ((answer_items hrunning result).mem_iff.mpr
        (List.mem_append_left _ (List.mem_of_getElem? hitem))) promise hwaiter
      refine ⟨item.id, f.number, chunkIds f.chunk, result, index, howned,
        List.mem_append_right _ (List.mem_singleton.mpr rfl), hgrows.subset (h.asked f hf), ?_, ho⟩
      rw [chunkIds, List.getElem?_map, hitem]
      rfl
  case distinct =>
    intro hdistinct number
    have hasks := nextChunk_asks number f.number f.rest
    have hold := h.distinct hdistinct number
    rw [List.nodup_iff_count_le_one] at hold ⊢
    intro a
    have hcount := hold a
    rw [hrunning, ← List.singleton_append, ahead_append, ahead_append, ahead_singleton,
      ← hasks] at hcount
    simp only [BatchLoader.answer, requested_append, ahead_append, List.count_append] at hcount ⊢
    omega

theorem Inv.step {es : List (Event T E)} {s t : State T E} {e : Event T E} (h : Inv loader es s)
    (hstep : Step loader s e t) : Inv loader (es ++ [e]) t := by
  cases hstep with
  | load id => exact h.load id
  | flush hqueued => exact h.flush hqueued
  | answer hrunning => exact h.answer hrunning _

theorem reachable_inv {es : List (Event T E)} {s : State T E}
    (h : Steps (Step loader) initial es s) : Inv loader es s :=
  Steps.history (P := fun t es => Inv loader es t) Inv.step h Inv.initial

/-! ## Progress -/

/-- The loader goes on by itself: a queued flush can run, and any answer to an open call is taken. -/
def CanGoOn (loader : Loader) (s : State T E) : Prop :=
  (∃ t, Step loader s .flush t) ∨
    ∃ f ∈ s.running, ∀ result, ∃ t, Step loader s (.answer f.number (chunkIds f.chunk) result) t

theorem quiet_or_goes_on (s : State T E) : Quiet s ∨ CanGoOn loader s := by
  by_cases hqueued : 0 < s.microtasks
  · exact .inr (.inl ⟨flush loader s, .flush hqueued⟩)
  · cases hrunning : s.running with
    | nil => exact .inl ⟨Nat.eq_zero_of_not_pos hqueued, hrunning⟩
    | cons f after =>
      refine .inr (.inr ⟨f, by rw [hrunning]; exact List.mem_cons_self, ?_⟩)
      intro result
      exact ⟨answer s [] f after result, .answer hrunning⟩

def isLoad : Event T E → Bool
  | .load _ => true
  | .flush | .answer .. => false

theorem nextChunk_work (number : Nat) (chunks : List (List PendingBatch)) :
    ((nextChunk number chunks).map fun f => 1 + f.rest.length).sum = chunks.length := by
  cases chunks with
  | nil => rfl
  | cons chunk rest => simp [nextChunk, Nat.add_comm]

theorem work_step {s t : State T E} {e : Event T E} (hstep : Step loader s e t)
    (he : isLoad e = false) : work loader t < work loader s := by
  cases hstep with
  | load id => cases he
  | flush hqueued =>
    have hempty : pendingBatches JsMap.empty loader.distinctResults = [] := rfl
    have hchunks := length_chunkItems_le loader.positive
      (pendingBatches s.pending loader.distinctResults)
    simp only [work, flush, hempty, List.map_append, List.sum_append, nextChunk_work,
      List.length_nil]
    omega
  | answer hrunning =>
    simp only [work, answer, hrunning, List.map_append, List.map_cons, List.sum_append,
      List.sum_cons, nextChunk_work]
    omega

/-- Without a new call, the loader takes no more steps than it has work. -/
theorem work_bounds {s t : State T E} {es : List (Event T E)} (h : Steps (Step loader) s es t)
    (hes : ∀ e ∈ es, isLoad e = false) : work loader t + es.length ≤ work loader s := by
  induction h with
  | nil => exact Nat.le_refl _
  | snoc _ hstep ih =>
    have hlast := work_step hstep (hes _ (List.mem_append_right _ (List.mem_singleton.mpr rfl)))
    have hrest := ih fun e he => hes e (List.mem_append_left _ he)
    rw [List.length_append, List.length_singleton]
    omega

/-! ## Every promise settles once, by its own id -/

/-- The id of a call of `load` that returned a promise. -/
def returned : Event T E → Option EntityId
  | .load id => (entityIdKey id).toOption.map fun _ => id
  | .flush | .answer .. => none

theorem promises_returned {es : List (Event T E)} {s : State T E}
    (h : Steps (Step loader) initial es s) : s.promises = es.filterMap returned := by
  refine Steps.history (P := fun t es => t.promises = es.filterMap returned) ?_ h rfl
  intro t es e u ih hstep
  rw [List.filterMap_append, ← ih]
  cases hstep with
  | load id =>
    rw [load]
    cases hkey : entityIdKey id with
    | error => simp [returned, hkey, Except.toOption]
    | ok key =>
      dsimp only
      rw [schedule_eq]
      simp [returned, hkey, Except.toOption]
  | flush => simp [flush, returned]
  | answer => simp [answer, returned]

/-- What the loader owes its callers after the events `es`. -/
structure LoadsEach (loader : Loader) (es : List (Event T E)) (s : State T E) : Prop where
  /-- The promises are those of the calls, in their order. -/
  promised : s.promises = es.filterMap returned
  /-- No promise is settled twice. -/
  once : (s.settled.map Prod.fst).Nodup
  /-- A promise has the value, or the error, of the call that its id was in. -/
  own : ∀ promise o, (promise, o) ∈ s.settled → Answered es s promise o
  /-- When nothing is open, the settled promises are all that were returned. -/
  all : Quiet s → (s.settled.map Prod.fst).Perm (List.range s.promises.length)
  /-- Something is open until then, -/
  goes_on : Quiet s ∨ CanGoOn loader s
  /-- and only a new call keeps it open. -/
  ends : ∀ es' t, Steps (Step loader) s es' t → (∀ e ∈ es', isLoad e = false) →
    es'.length ≤ work loader s
  /-- One flush asks for an id once. -/
  distinct : loader.distinctResults = false → ∀ number, (requested number s.requests).Nodup

theorem Inv.quiet_items {es : List (Event T E)} {s : State T E} (h : Inv loader es s)
    (hquiet : Quiet s) : s.items loader = [] := by
  have hempty : s.pending.entries = [] := by
    by_contra hne
    have hscheduled := h.scheduled
    rw [h.queued hne, hquiet.1] at hscheduled
    cases hscheduled
  rw [State.items, pendingBatches_nil_of_empty hempty, hquiet.2]
  rfl

theorem loads_each {es : List (Event T E)} {s : State T E}
    (h : Steps (Step loader) initial es s) : LoadsEach loader es s := by
  have hinv := reachable_inv h
  constructor
  case promised => exact promises_returned h
  case once =>
    rw [List.nodup_iff_count_le_one]
    intro p
    have hheld := hinv.held p
    have hrange := List.nodup_iff_count_le_one.mp (@List.nodup_range s.promises.length) p
    omega
  case own => exact hinv.answered
  case all =>
    intro hquiet
    rw [List.perm_iff_count]
    intro p
    have hheld := hinv.held p
    rw [hinv.quiet_items hquiet] at hheld
    simpa using hheld
  case goes_on => exact quiet_or_goes_on s
  case ends =>
    intro es' t hsteps hes
    have hbound := work_bounds hsteps hes
    omega
  case distinct =>
    intro hdistinct number
    exact (List.nodup_append.mp (hinv.distinct hdistinct number)).1

def textId (text : String) : EntityId := .string (Utf16.ofString text)

/-- Two calls for one id share a place in the first chunk; its answer settles both. -/
theorem loads_each_shared :
    let loader : Loader := ⟨2, false, by decide⟩
    let es : List (Event Nat Unit) := [.load (textId "a"), .load (textId "b"), .load (textId "a"),
      .flush, .answer 0 [textId "a", textId "b"] (.ok [some 7])]
    ∃ s, LoadsEach loader es s ∧ s.requests = [(0, [textId "a", textId "b"])] ∧
      s.settled = [(0, .resolved (some 7)), (2, .resolved (some 7)), (1, .resolved none)] := by
  intro loader es
  have h₁ := Steps.single (@Step.load Nat Unit loader initial (textId "a"))
  have h₂ := h₁.snoc (.load (textId "b"))
  have h₃ := h₂.snoc (.load (textId "a"))
  have h₄ := h₃.snoc (.flush (by decide))
  have h₅ := h₄.snoc (@Step.answer Nat Unit loader [] _ [] _ (.ok [some 7]) rfl)
  exact ⟨_, loads_each h₅, by decide, by decide⟩

/-- With `distinctResults`, each call has a place of its own. -/
theorem distinct_results_ask_twice :
    ∃ (loader : Loader) (es : List (Event Nat Unit)) (s : State Nat Unit),
      Steps (Step loader) initial es s ∧ ∃ number, ¬(requested number s.requests).Nodup := by
  have h₁ := Steps.single (@Step.load Nat Unit ⟨2, true, by decide⟩ initial (textId "a"))
  have h₂ := h₁.snoc (.load (textId "a"))
  have h₃ := h₂.snoc (.flush (by decide))
  exact ⟨_, _, _, h₃, 0, by decide⟩

end ActiveTs.BatchLoader
