import Mathlib.Data.List.Nodup
import ActiveTs.EntityIds.DatastoreKeys
import ActiveTs.Lib.Except

/-! # Bulk mutations of Datastore

Entries are checked and sized one by one, and entries with one key identity are refused. Without a
transaction they are sent in batches, each cut by a count limit and by a byte budget, until one fails.
The error names the batch that failed: the entries before it were acknowledged, those after it were
never sent. -/

namespace ActiveTs.Datastore.Bulk

open Utf16 (Units ofString)
open ActiveTs.EntityIds (DatastoreKey ValidationError byteLength datastoreKeyIdentity)

def DATASTORE_MAX_ENTITY_BYTES : Nat := 1048572

def DATASTORE_SAFE_BULK_REQUEST_BYTES : Nat := 8 * 1024 * 1024

def DATASTORE_BULK_REQUEST_OVERHEAD_BYTES : Nat := 4 * 1024

def DATASTORE_BULK_MUTATION_OVERHEAD_BYTES : Nat := 64

def MAX_SAFE_INTEGER : Nat := 9007199254740991

/-! ## Sizes -/

/-- A value of a stored document. -/
inductive BulkValue
  | undefined
  | null
  | boolean (value : Bool)
  | number (value : JsNumber)
  | string (value : Units)
  | date
  | bytes (byteLength : Nat)
  | array (items : List BulkValue)
  | object (fields : List (Units × BulkValue))

mutual

/-- `datastoreBulkValueBytes`, `none` for a number that is not finite. -/
def datastoreBulkValueBytes : BulkValue → Option Nat
  | .undefined => some 0
  | .null => some 16
  | .boolean _ => some 16
  | .number (.finite _) => some 24
  | .number .negativeZero => some 24
  | .number _ => none
  | .string value => some (16 + byteLength value)
  | .date => some 48
  | .bytes byteLength => some (16 + byteLength)
  | .array items => (itemsBytes items).map (32 + ·)
  | .object fields => (fieldsBytes fields).map (32 + ·)

def itemsBytes : List BulkValue → Option Nat
  | [] => some 0
  | item :: items => do
    let bytes ← datastoreBulkValueBytes item
    let rest ← itemsBytes items
    some (16 + bytes + rest)

def fieldsBytes : List (Units × BulkValue) → Option Nat
  | [] => some 0
  | (key, value) :: fields => do
    let bytes ← datastoreBulkValueBytes value
    let rest ← fieldsBytes fields
    some (64 + byteLength key + bytes + rest)

end

/-! ## Errors -/

inductive BulkOperation
  | upsertMany
  | deleteMany
  deriving DecidableEq

/-- Input indices in the half-open interval. -/
structure DatastoreBulkMutationRange where
  startIndex : Nat
  endIndexExclusive : Nat
  deriving DecidableEq

structure DatastoreBulkMutationError (E : Type) where
  operation : BulkOperation
  totalCount : Nat
  completedCount : Nat
  failedBatchEndIndex : Nat
  cause : E
  deriving DecidableEq

namespace DatastoreBulkMutationError

variable {E : Type} (error : DatastoreBulkMutationError E)

def completedRange : DatastoreBulkMutationRange := ⟨0, error.completedCount⟩

def failedRange : DatastoreBulkMutationRange := ⟨error.completedCount, error.failedBatchEndIndex⟩

def notAttemptedRange : DatastoreBulkMutationRange := ⟨error.failedBatchEndIndex, error.totalCount⟩

end DatastoreBulkMutationError

inductive BulkError (E : Type)
  /-- The checks of an entry refuse it. -/
  | entry (index : Nat) (error : E)
  | identity (index : Nat) (error : ValidationError)
  | sameKey (index duplicateIndex : Nat)
  | nonFinite (index : Nat)
  | entityTooLarge (index : Nat)
  | noUpsert
  | inconsistent
  | atomicTooLarge
  | noTransactions
  | itemTooLarge (index : Nat)
  | batch (error : DatastoreBulkMutationError E)
  | transaction (error : E)
  /-- `datastoreTransactionConflict` -/
  | conflict (error : E)
  /-- The commit failed, and its outcome is unknown. -/
  | unknownOutcome (error : E)
  | rollbackFailed (error : BulkError E) (rollbackError : E)

/-! ## Batches -/

/-- `normalizeDatastoreBulkMutationOptions` -/
structure BulkOptions where
  atomic : Bool
  chunkSize : Option Nat
  positive : ∀ n ∈ chunkSize, 0 < n
  exclusive : atomic = true → chunkSize = none

theorem BulkOptions.default_pos {chunkSize : Option Nat} (h : ∀ n ∈ chunkSize, 0 < n) :
    0 < chunkSize.getD MAX_SAFE_INTEGER := by
  cases chunkSize with
  | none => decide
  | some n => exact h n rfl

/-- What the client does: whether a call fails, and how the steps of a transaction go. -/
structure BulkClient (T E : Type) where
  /-- There is an `upsert` or a `save`. -/
  upsert : Bool
  /-- The failure of the `n`-th call. -/
  mutate : Nat → List T → Option E
  transactions : Bool
  run : Option E
  commit : Option E
  rollback : Option E
  aborted : E → Bool
  definiteFailure : E → Bool

/-- The batches that were sent, with the sizes of their items, and how the call ended. -/
structure Run (T E : Type) where
  sent : List (List (T × Nat))
  result : Except (BulkError E) Unit

/-- Where the inner loop stops. -/
structure Cut (T : Type) where
  batch : List (T × Nat)
  offset : Nat
  rest : List (T × Nat)

section
variable {T E : Type}

/-- The inner loop. -/
def cut (chunkSize : Nat) (batch : List (T × Nat)) (offset batchBytes : Nat) :
    List (T × Nat) → Cut T
  | [] => ⟨batch, offset, []⟩
  | (item, nextBytes) :: rest =>
    if batch.length < chunkSize ∧
        ¬(batch ≠ [] ∧ DATASTORE_SAFE_BULK_REQUEST_BYTES < batchBytes + nextBytes) then
      cut chunkSize (batch ++ [(item, nextBytes)]) (offset + 1) (batchBytes + nextBytes) rest
    else ⟨batch, offset, (item, nextBytes) :: rest⟩

/-- The request of a batch. -/
def requestBytes (batch : List (T × Nat)) : Nat :=
  DATASTORE_BULK_REQUEST_OVERHEAD_BYTES + (batch.map Prod.snd).sum

/-- Every item fits into a request alone. -/
def Fits (items : List (T × Nat)) : Prop :=
  ∀ item ∈ items, requestBytes [item] ≤ DATASTORE_SAFE_BULK_REQUEST_BYTES

/-- What the inner loop keeps. -/
structure CutLaw (chunkSize : Nat) (batch : List (T × Nat)) (offset : Nat) (rest : List (T × Nat))
    (c : Cut T) : Prop where
  items : c.batch ++ c.rest = batch ++ rest
  offset : c.offset + c.rest.length = offset + rest.length
  grown : batch <+: c.batch
  count : batch.length ≤ chunkSize → c.batch.length ≤ chunkSize
  moves : batch = [] → rest ≠ [] → 0 < chunkSize → c.batch ≠ []
  budget : Fits rest → (batch ≠ [] → requestBytes batch ≤ DATASTORE_SAFE_BULK_REQUEST_BYTES) →
    c.batch ≠ [] → requestBytes c.batch ≤ DATASTORE_SAFE_BULK_REQUEST_BYTES

theorem requestBytes_nil :
    requestBytes ([] : List (T × Nat)) = DATASTORE_BULK_REQUEST_OVERHEAD_BYTES := by
  rw [requestBytes, List.map_nil, List.sum_nil, Nat.add_zero]

theorem requestBytes_append (batch : List (T × Nat)) (item : T × Nat) :
    requestBytes (batch ++ [item]) = requestBytes batch + item.2 := by
  rw [requestBytes, requestBytes, List.map_append, List.sum_append]
  simp only [List.map_cons, List.map_nil, List.sum_cons, List.sum_nil]
  omega

theorem cutLaw (chunkSize : Nat) (rest : List (T × Nat)) (batch : List (T × Nat)) (offset : Nat) :
    CutLaw chunkSize batch offset rest
      (cut chunkSize batch offset (requestBytes batch) rest) := by
  induction rest generalizing batch offset with
  | nil => exact ⟨rfl, rfl, List.prefix_rfl, id, fun _ h => absurd rfl h, fun _ h => h⟩
  | cons item rest ih =>
    obtain ⟨payload, nextBytes⟩ := item
    rw [cut]
    split
    · next htaken =>
      rw [← requestBytes_append batch (payload, nextBytes)]
      have hrest := ih (batch ++ [(payload, nextBytes)]) (offset + 1)
      refine ⟨?_, ?_, ?_, fun _ => hrest.count ?_, fun _ _ _ hnil => ?_, fun hfits hbatch => ?_⟩
      · exact hrest.items.trans (List.append_assoc batch [_] rest)
      · rw [hrest.offset, List.length_cons]
        omega
      · exact (List.prefix_append batch _).trans hrest.grown
      · rw [List.length_append, List.length_singleton]
        exact htaken.1
      · have hgrown := hrest.grown
        rw [hnil] at hgrown
        exact absurd (List.prefix_nil.mp hgrown) (by simp)
      · refine hrest.budget (fun other hother => hfits other (List.mem_cons_of_mem _ hother)) fun _ => ?_
        by_cases hempty : batch = []
        · -- The first item skips the budget test, but it was checked alone.
          subst hempty
          exact hfits _ List.mem_cons_self
        · rw [requestBytes_append]
          exact Nat.not_lt.mp fun hlarge => htaken.2 ⟨hempty, hlarge⟩
    · next hstop =>
      refine ⟨rfl, rfl, List.prefix_rfl, id, fun hempty _ hpos => ?_, fun _ h => h⟩
      subst hempty
      exact absurd ⟨hpos, fun h => h.1 rfl⟩ hstop

/-- The batch that a request is filled with. -/
theorem cutLaw_nil (chunkSize offset : Nat) (rest : List (T × Nat)) :
    CutLaw chunkSize [] offset rest
      (cut chunkSize [] offset DATASTORE_BULK_REQUEST_OVERHEAD_BYTES rest) := by
  rw [← requestBytes_nil]
  exact cutLaw chunkSize rest [] offset

theorem cut_rest_lt {chunkSize : Nat} (offset : Nat) {rest : List (T × Nat)} (hpos : 0 < chunkSize)
    (hrest : rest ≠ []) :
    (cut chunkSize [] offset DATASTORE_BULK_REQUEST_OVERHEAD_BYTES rest).rest.length <
      rest.length := by
  have hlaw := cutLaw_nil chunkSize offset rest
  have hmoves := List.length_pos_iff.mpr (hlaw.moves rfl hrest hpos)
  have hitems := congrArg List.length hlaw.items
  rw [List.length_append, List.nil_append] at hitems
  omega

/-- The outer loop, from the item at `offset` on. -/
def sendBatches (client : BulkClient T E) (operation : BulkOperation) (total chunkSize : Nat)
    (hpos : 0 < chunkSize) (call offset : Nat) (rest : List (T × Nat)) : Run T E :=
  if _hrest : rest = [] then ⟨[], .ok ()⟩
  else
    let c := cut chunkSize [] offset DATASTORE_BULK_REQUEST_OVERHEAD_BYTES rest
    match client.mutate call (c.batch.map Prod.fst) with
    | some cause => ⟨[c.batch], .error (.batch ⟨operation, total, offset, c.offset, cause⟩)⟩
    | none =>
      let later := sendBatches client operation total chunkSize hpos (call + 1) c.offset c.rest
      ⟨c.batch :: later.sent, later.result⟩
termination_by rest.length
decreasing_by exact cut_rest_lt offset hpos _hrest

/-- The sum of an atomic request passes the budget. -/
def exceedsBudget (bytes : Nat) : List Nat → Bool
  | [] => false
  | next :: rest =>
    decide (DATASTORE_SAFE_BULK_REQUEST_BYTES < bytes + next) || exceedsBudget (bytes + next) rest

/-- One transaction for all items. -/
def runAtomic (client : BulkClient T E) (items : List (T × Nat)) : Run T E :=
  if exceedsBudget DATASTORE_BULK_REQUEST_OVERHEAD_BYTES (items.map Prod.snd) then
    ⟨[], .error .atomicTooLarge⟩
  else if !client.transactions then ⟨[], .error .noTransactions⟩
  else
    match client.run with
    | some error => ⟨[], .error (.transaction error)⟩
    | none =>
      match client.mutate 0 (items.map Prod.fst), client.commit with
      | some error, _ =>
        match client.rollback with
        | some rollbackError =>
          ⟨[items], .error (.rollbackFailed (.transaction error) rollbackError)⟩
        | none => ⟨[items], .error (.transaction error)⟩
      | none, some error =>
        if client.aborted error then ⟨[items], .error (.conflict error)⟩
        else if client.definiteFailure error then ⟨[items], .error (.transaction error)⟩
        else ⟨[items], .error (.unknownOutcome error)⟩
      | none, none => ⟨[items], .ok ()⟩

/-- The first item that does not fit into a request alone. -/
def oversized (itemBytes : List Nat) : Option Nat :=
  itemBytes.findIdx? fun bytes =>
    decide (DATASTORE_SAFE_BULK_REQUEST_BYTES < DATASTORE_BULK_REQUEST_OVERHEAD_BYTES + bytes)

def runBulkMutation (client : BulkClient T E) (options : BulkOptions) (operation : BulkOperation)
    (items : List T) (itemBytes : List Nat) : Run T E :=
  if items = [] then ⟨[], .ok ()⟩
  else if items.length ≠ itemBytes.length then ⟨[], .error .inconsistent⟩
  else if options.atomic then runAtomic client (items.zip itemBytes)
  else
    match oversized itemBytes with
    | some index => ⟨[], .error (.itemTooLarge index)⟩
    | none =>
      sendBatches client operation items.length (options.chunkSize.getD MAX_SAFE_INTEGER)
        (BulkOptions.default_pos options.positive) 0 0 (items.zip itemBytes)

end

/-! ## Entries -/

/-- A checked entry: its key, the identity of the key, and what is sent. -/
structure Prepared (P : Type) where
  key : DatastoreKey
  identity : Units
  payload : P

section
variable {R P E : Type}

/-- The loop over the entries. The `i`-th of the identities seen is that of the entry `i`. -/
def prepareEntries (normalize : Nat → R → Except (BulkError E) (DatastoreKey × P))
    (entryBytes : Nat → Units → P → Except (BulkError E) Nat) (index : Nat) (seenKeys : List Units) :
    List R → Except (BulkError E) (List (Prepared P × Nat))
  | [] => .ok []
  | rawEntry :: rest => do
    let (key, payload) ← normalize index rawEntry
    let identity ← (datastoreKeyIdentity key).mapError (BulkError.identity index)
    match seenKeys.idxOf? identity with
    | some duplicateIndex => .error (.sameKey index duplicateIndex)
    | none => do
      let bytes ← entryBytes index identity payload
      let others ← prepareEntries normalize entryBytes (index + 1) (seenKeys ++ [identity]) rest
      .ok ((⟨key, identity, payload⟩, bytes) :: others)

/-- The size of an entity with its key and its unindexed fields. -/
def entityBytes (unindexed : Option (List Units)) (index : Nat) (identity : Units)
    (storedData : BulkValue) : Except (BulkError E) Nat :=
  match datastoreBulkValueBytes (.object
    [(ofString "key", .string identity), (ofString "data", storedData),
      (ofString "excludeFromIndexes", (unindexed.map fun fields => .array (fields.map .string)).getD
        .undefined)]) with
  | none => .error (.nonFinite index)
  | some estimatedEntityBytes =>
    if DATASTORE_MAX_ENTITY_BYTES < estimatedEntityBytes then .error (.entityTooLarge index)
    else .ok (estimatedEntityBytes + DATASTORE_BULK_MUTATION_OVERHEAD_BYTES)

/-- The size of a key. -/
def keyBytes (index : Nat) (identity : Units) (_ : Unit) : Except (BulkError E) Nat :=
  match datastoreBulkValueBytes (.string identity) with
  | none => .error (.nonFinite index)
  | some bytes => .ok (bytes + DATASTORE_BULK_MUTATION_OVERHEAD_BYTES)

/-- What `normalize` makes of an entry stands for its checks: shape, id, data, options, ancestor. -/
def upsertMany (client : BulkClient (Prepared BulkValue) E) (options : BulkOptions)
    (unindexed : Option (List Units))
    (normalize : Nat → R → Except (BulkError E) (DatastoreKey × BulkValue)) (entries : List R) :
    Run (Prepared BulkValue) E :=
  match prepareEntries normalize (entityBytes unindexed) 0 [] entries with
  | .error error => ⟨[], .error error⟩
  | .ok prepared =>
    if prepared ≠ [] ∧ !options.atomic ∧ !client.upsert then ⟨[], .error .noUpsert⟩
    else runBulkMutation client options .upsertMany (prepared.map Prod.fst) (prepared.map Prod.snd)

def deleteMany (client : BulkClient (Prepared Unit) E) (options : BulkOptions)
    (normalize : Nat → R → Except (BulkError E) (DatastoreKey × Unit)) (entries : List R) :
    Run (Prepared Unit) E :=
  match prepareEntries normalize keyBytes 0 [] entries with
  | .error error => ⟨[], .error error⟩
  | .ok prepared =>
    runBulkMutation client options .deleteMany (prepared.map Prod.fst) (prepared.map Prod.snd)

end

/-! ## Batches that are sent -/

section
variable {T E : Type}

/-- What a call without a transaction does with the items. -/
structure ChunkLaw (client : BulkClient T E) (operation : BulkOperation) (chunkSize : Nat)
    (items : List (T × Nat)) (run : Run T E) : Prop where
  batches : ∀ batch ∈ run.sent, batch ≠ [] ∧ batch.length ≤ chunkSize ∧
    requestBytes batch ≤ DATASTORE_SAFE_BULK_REQUEST_BYTES
  consecutive : run.sent.flatten <+: items
  /-- No batch is sent when an item exceeds the budget alone. -/
  refused : ¬Fits items → run.sent = [] ∧ ∃ index, run.result = .error (.itemTooLarge index)
  complete : run.result = .ok () → run.sent.flatten = items ∧
    ∀ call batch, run.sent[call]? = some batch → client.mutate call (batch.map Prod.fst) = none
  succeeds : Fits items → (∀ call batch, client.mutate call batch = none) → run.result = .ok ()
  /-- The range of the error is that of the last batch. -/
  failed : Fits items → ∀ error, run.result = .error error → ∃ acknowledged batch cause,
    run.sent = acknowledged ++ [batch] ∧
    (∀ call earlier, acknowledged[call]? = some earlier →
      client.mutate call (earlier.map Prod.fst) = none) ∧
    client.mutate acknowledged.length (batch.map Prod.fst) = some cause ∧
    error = .batch ⟨operation, items.length, acknowledged.flatten.length,
      (acknowledged ++ [batch]).flatten.length, cause⟩

/-- The same from a call and an offset on. -/
structure SendLaw (client : BulkClient T E) (operation : BulkOperation) (total chunkSize : Nat)
    (call offset : Nat) (rest : List (T × Nat)) (run : Run T E) : Prop where
  batches : ∀ batch ∈ run.sent, batch ≠ [] ∧ batch.length ≤ chunkSize ∧
    requestBytes batch ≤ DATASTORE_SAFE_BULK_REQUEST_BYTES
  consecutive : run.sent.flatten <+: rest
  complete : run.result = .ok () → run.sent.flatten = rest ∧
    ∀ i batch, run.sent[i]? = some batch →
      client.mutate (call + i) (batch.map Prod.fst) = none
  failed : ∀ error, run.result = .error error → ∃ acknowledged batch cause,
    run.sent = acknowledged ++ [batch] ∧
    (∀ i earlier, acknowledged[i]? = some earlier →
      client.mutate (call + i) (earlier.map Prod.fst) = none) ∧
    client.mutate (call + acknowledged.length) (batch.map Prod.fst) = some cause ∧
    error = .batch ⟨operation, total, offset + acknowledged.flatten.length,
      offset + (acknowledged ++ [batch]).flatten.length, cause⟩

variable {client : BulkClient T E} {operation : BulkOperation} {total chunkSize : Nat}

theorem acknowledged_cons {call : Nat} {batch : List (T × Nat)} {later : List (List (T × Nat))}
    (hbatch : client.mutate call (batch.map Prod.fst) = none)
    (hlater : ∀ i earlier, later[i]? = some earlier →
      client.mutate (call + 1 + i) (earlier.map Prod.fst) = none) (i : Nat)
    (earlier : List (T × Nat)) (h : (batch :: later)[i]? = some earlier) :
    client.mutate (call + i) (earlier.map Prod.fst) = none := by
  cases i with
  | zero =>
    cases h
    exact hbatch
  | succ i =>
    rw [show call + (i + 1) = call + 1 + i by omega]
    exact hlater i earlier h

namespace SendLaw

variable {call offset : Nat} {batch rest : List (T × Nat)} {later : Run T E}

theorem done : SendLaw client operation total chunkSize call offset [] ⟨[], .ok ()⟩ where
  batches _ h := absurd h List.not_mem_nil
  consecutive := List.prefix_rfl
  complete _ := ⟨rfl, fun _ _ h => absurd (List.mem_of_getElem? h) List.not_mem_nil⟩
  failed _ h := by cases h

/-- The call with the batch fails. -/
theorem fail {cause : E} (hbatch : batch ≠ [] ∧ batch.length ≤ chunkSize ∧
      requestBytes batch ≤ DATASTORE_SAFE_BULK_REQUEST_BYTES)
    (hmutate : client.mutate call (batch.map Prod.fst) = some cause) :
    SendLaw client operation total chunkSize call offset (batch ++ rest)
      ⟨[batch], .error (.batch ⟨operation, total, offset, offset + batch.length, cause⟩)⟩ where
  batches other h := by
    cases List.mem_singleton.mp h
    exact hbatch
  consecutive := by
    rw [List.flatten_singleton]
    exact List.prefix_append batch rest
  complete h := by cases h
  failed error h := by
    cases h
    refine ⟨[], batch, cause, rfl, fun _ _ h => absurd (List.mem_of_getElem? h) List.not_mem_nil,
      hmutate, ?_⟩
    rw [List.nil_append, List.flatten_singleton]
    rfl

/-- The call with the batch succeeds. -/
theorem next (hbatch : batch ≠ [] ∧ batch.length ≤ chunkSize ∧
      requestBytes batch ≤ DATASTORE_SAFE_BULK_REQUEST_BYTES)
    (hmutate : client.mutate call (batch.map Prod.fst) = none)
    (h : SendLaw client operation total chunkSize (call + 1) (offset + batch.length) rest later) :
    SendLaw client operation total chunkSize call offset (batch ++ rest)
      ⟨batch :: later.sent, later.result⟩ where
  batches other hother := by
    rcases List.mem_cons.mp hother with rfl | hother
    · exact hbatch
    · exact h.batches other hother
  consecutive := by
    rw [List.flatten_cons]
    exact (List.prefix_append_right_inj batch).mpr h.consecutive
  complete hresult := by
    obtain ⟨hflatten, hacknowledged⟩ := h.complete hresult
    refine ⟨?_, acknowledged_cons hmutate hacknowledged⟩
    rw [List.flatten_cons, hflatten]
  failed error hresult := by
    obtain ⟨acknowledged, last, cause, hsent, hacknowledged, hcause, herror⟩ := h.failed error hresult
    refine ⟨batch :: acknowledged, last, cause, ?_, acknowledged_cons hmutate hacknowledged, ?_, ?_⟩
    · rw [hsent, List.cons_append]
    · rw [List.length_cons, Nat.add_comm acknowledged.length, ← Nat.add_assoc]
      exact hcause
    · rw [herror]
      simp only [List.cons_append, List.flatten_cons, List.length_append, Nat.add_assoc]

end SendLaw

/-- The batch that is cut off in front of the rest. -/
theorem cut_parts {offset : Nat} {rest : List (T × Nat)} (hpos : 0 < chunkSize) (hfits : Fits rest)
    (hrest : rest ≠ []) {c : Cut T}
    (hc : c = cut chunkSize [] offset DATASTORE_BULK_REQUEST_OVERHEAD_BYTES rest) :
    c.batch ++ c.rest = rest ∧ c.offset = offset + c.batch.length ∧
      c.rest.length < rest.length ∧ c.batch ≠ [] ∧ c.batch.length ≤ chunkSize ∧
      requestBytes c.batch ≤ DATASTORE_SAFE_BULK_REQUEST_BYTES := by
  have hlaw := cutLaw_nil chunkSize offset rest
  have hshorter := cut_rest_lt offset hpos hrest
  rw [← hc] at hlaw hshorter
  have hitems : c.batch ++ c.rest = rest := hlaw.items
  have hmoves := hlaw.moves rfl hrest hpos
  have hcount := congrArg List.length hitems
  rw [List.length_append] at hcount
  have hoffset := hlaw.offset
  exact ⟨hitems, by omega, hshorter, hmoves, hlaw.count (Nat.zero_le _),
    hlaw.budget hfits (fun h => absurd rfl h) hmoves⟩

theorem sendLaw (hpos : 0 < chunkSize) (call offset : Nat) {rest : List (T × Nat)}
    (hfits : Fits rest) :
    SendLaw client operation total chunkSize call offset rest
      (sendBatches client operation total chunkSize hpos call offset rest) := by
  induction hlength : rest.length using Nat.strongRecOn generalizing call offset rest with
  | _ length ih =>
    rw [sendBatches]
    by_cases hrest : rest = []
    · rw [dif_pos hrest, hrest]
      exact .done
    · rw [dif_neg hrest]
      generalize hc : cut chunkSize [] offset DATASTORE_BULK_REQUEST_OVERHEAD_BYTES rest = c
      obtain ⟨hitems, hoffset, hshorter, hbatch⟩ := cut_parts hpos hfits hrest hc.symm
      have hfitsRest : Fits c.rest := fun item hitem =>
        hfits item (hitems ▸ List.mem_append_right _ hitem)
      have hlater := ih _ (hlength ▸ hshorter) (call + 1) c.offset hfitsRest rfl
      rw [← hitems]
      cases hmutate : client.mutate call (c.batch.map Prod.fst) with
      | some cause =>
        simp only [hmutate, hoffset]
        exact .fail hbatch hmutate
      | none =>
        simp only [hmutate]
        rw [hoffset] at hlater ⊢
        exact .next hbatch hmutate hlater

theorem oversized_eq_none {items : List (T × Nat)} :
    oversized (items.map Prod.snd) = none ↔ Fits items := by
  rw [oversized, List.findIdx?_eq_none_iff, List.forall_mem_map]
  apply forall₂_congr
  intro item _
  rw [decide_eq_false_iff_not, Nat.not_lt, requestBytes, List.map_singleton, List.sum_singleton]

/-- A call without a transaction. -/
theorem chunkLaw_runBulkMutation (client : BulkClient T E) (options : BulkOptions)
    (hatomic : options.atomic = false) (operation : BulkOperation) (items : List (T × Nat)) :
    ChunkLaw client operation (options.chunkSize.getD MAX_SAFE_INTEGER) items
      (runBulkMutation client options operation (items.map Prod.fst) (items.map Prod.snd)) := by
  have hpos := BulkOptions.default_pos options.positive
  have hzip : (items.map Prod.fst).zip (items.map Prod.snd) = items :=
    (List.zip_of_prod rfl rfl).symm
  have hlengths : ¬(items.map Prod.fst).length ≠ (items.map Prod.snd).length := by
    rw [List.length_map, List.length_map]
    exact fun h => h rfl
  rw [runBulkMutation]
  by_cases hempty : items = []
  · rw [if_pos (List.map_eq_nil_iff.mpr hempty), hempty]
    refine ⟨fun _ h => absurd h List.not_mem_nil, List.prefix_rfl, fun hfits => ?_, fun _ =>
      ⟨rfl, fun _ _ h => absurd (List.mem_of_getElem? h) List.not_mem_nil⟩, fun _ _ => rfl,
      fun _ _ h => ?_⟩
    · exact absurd (fun _ h => absurd h List.not_mem_nil) hfits
    · cases h
  · rw [if_neg (mt List.map_eq_nil_iff.mp hempty), if_neg hlengths, hatomic, if_neg Bool.false_ne_true]
    cases hover : oversized (items.map Prod.snd) with
    | some index =>
      have hfits : ¬Fits items := fun hfits => by
        rw [oversized_eq_none.mpr hfits] at hover
        cases hover
      refine ⟨fun _ h => absurd h List.not_mem_nil, List.nil_prefix, fun _ => ⟨rfl, index, rfl⟩,
        fun h => ?_, fun h => absurd h hfits, fun h => absurd h hfits⟩
      cases h
    | none =>
      have hfits := oversized_eq_none.mp hover
      have hlaw : SendLaw client operation (items.map Prod.fst).length _ 0 0 items _ :=
        sendLaw hpos 0 0 hfits
      dsimp only
      rw [hzip]
      refine ⟨hlaw.batches, hlaw.consecutive, fun h => absurd hfits h, fun h => ?_,
        fun _ hnone => ?_, fun _ error h => ?_⟩
      · obtain ⟨hflatten, hacknowledged⟩ := hlaw.complete h
        refine ⟨hflatten, fun i batch hbatch => ?_⟩
        rw [← Nat.zero_add i]
        exact hacknowledged i batch hbatch
      · cases hresult : (sendBatches client operation (items.map Prod.fst).length
            (options.chunkSize.getD MAX_SAFE_INTEGER) hpos 0 0 items).result with
        | ok value => rfl
        | error error =>
          obtain ⟨_, _, _, -, -, hcause, -⟩ := hlaw.failed error hresult
          rw [hnone] at hcause
          cases hcause
      · obtain ⟨acknowledged, batch, cause, hsent, hacknowledged, hcause, herror⟩ :=
          hlaw.failed error h
        refine ⟨acknowledged, batch, cause, hsent, fun i earlier hearlier => ?_, ?_, ?_⟩
        · rw [← Nat.zero_add i]
          exact hacknowledged i earlier hearlier
        · rw [← Nat.zero_add acknowledged.length]
          exact hcause
        · rw [herror, List.length_map, Nat.zero_add, Nat.zero_add]

theorem sent_runAtomic (client : BulkClient T E) (items : List (T × Nat)) :
    (runAtomic client items).sent.flatten <+: items := by
  have hall : [items].flatten <+: items :=
    ⟨[], by rw [List.append_nil, List.flatten_singleton]⟩
  rw [runAtomic]
  split
  · exact List.nil_prefix
  · split
    · exact List.nil_prefix
    · split
      · exact List.nil_prefix
      · split
        · split <;> exact hall
        · split
          · exact hall
          · split <;> exact hall
        · exact hall

/-- Whatever the options are, a prefix of the items is sent. -/
theorem sent_runBulkMutation (client : BulkClient T E) (options : BulkOptions)
    (operation : BulkOperation) (items : List (T × Nat)) :
    (runBulkMutation client options operation (items.map Prod.fst)
      (items.map Prod.snd)).sent.flatten <+: items := by
  cases hatomic : options.atomic with
  | false => exact (chunkLaw_runBulkMutation client options hatomic operation items).consecutive
  | true =>
    have hzip : (items.map Prod.fst).zip (items.map Prod.snd) = items :=
      (List.zip_of_prod rfl rfl).symm
    rw [runBulkMutation, hatomic, if_pos rfl, hzip]
    split
    · exact List.nil_prefix
    · split
      · exact List.nil_prefix
      · exact sent_runAtomic client items

end

/-! ## Identities -/

section
variable {R P E : Type} {normalize : Nat → R → Except (BulkError E) (DatastoreKey × P)}
  {entryBytes : Nat → Units → P → Except (BulkError E) Nat}

/-- The prepared entries have the identities of their keys, and no two have the same. -/
structure Distinct (seenKeys : List Units) (prepared : List (Prepared P × Nat)) : Prop where
  identified : ∀ entry ∈ prepared, datastoreKeyIdentity entry.1.key = .ok entry.1.identity
  nodup : (prepared.map fun entry => entry.1.identity).Nodup
  fresh : ∀ entry ∈ prepared, entry.1.identity ∉ seenKeys

theorem distinct_prepareEntries {index : Nat} {seenKeys : List Units} {entries : List R}
    {prepared : List (Prepared P × Nat)}
    (h : prepareEntries normalize entryBytes index seenKeys entries = .ok prepared) :
    Distinct seenKeys prepared := by
  induction entries generalizing index seenKeys prepared with
  | nil =>
    cases h
    exact ⟨fun _ h => absurd h List.not_mem_nil, List.nodup_nil, fun _ h => absurd h List.not_mem_nil⟩
  | cons rawEntry rest ih =>
    obtain ⟨⟨key, payload⟩, -, h⟩ := Except.bind_eq_ok.mp h
    obtain ⟨identity, hidentity, h⟩ := Except.bind_eq_ok.mp h
    have hkey : datastoreKeyIdentity key = .ok identity := by
      cases hok : datastoreKeyIdentity key with
      | error error =>
        rw [hok] at hidentity
        cases hidentity
      | ok found =>
        rw [hok] at hidentity
        cases hidentity
        rfl
    cases hseen : seenKeys.idxOf? identity with
    | some duplicateIndex =>
      rw [hseen] at h
      cases h
    | none =>
      rw [hseen] at h
      obtain ⟨bytes, -, h⟩ := Except.bind_eq_ok.mp h
      obtain ⟨others, hothers, h⟩ := Except.bind_eq_ok.mp h
      cases h
      have hrest := ih hothers
      have hnot : identity ∉ seenKeys := List.idxOf?_eq_none_iff.mp hseen
      refine ⟨fun entry hentry => ?_, ?_, fun entry hentry => ?_⟩
      · rcases List.mem_cons.mp hentry with rfl | hentry
        · exact hkey
        · exact hrest.identified entry hentry
      · rw [List.map_cons, List.nodup_cons]
        refine ⟨fun hmem => ?_, hrest.nodup⟩
        obtain ⟨entry, hentry, heq⟩ := List.mem_map.mp hmem
        apply hrest.fresh entry hentry
        rw [heq]
        exact List.mem_append_right _ (List.mem_singleton_self _)
      · rcases List.mem_cons.mp hentry with rfl | hentry
        · exact hnot
        · exact fun hmem => hrest.fresh entry hentry (List.mem_append_left _ hmem)

/-- No two entries with the same key identity are sent. -/
def SentDistinct (run : Run (Prepared P) E) : Prop :=
  (run.sent.flatten.map fun entry => datastoreKeyIdentity entry.1.key).Nodup

theorem Distinct.sent {prepared : List (Prepared P × Nat)} (h : Distinct [] prepared)
    {run : Run (Prepared P) E} (hsent : run.sent.flatten <+: prepared) : SentDistinct run := by
  have hidentities : (prepared.map fun entry => datastoreKeyIdentity entry.1.key) =
      (prepared.map fun entry => entry.1.identity).map .ok := by
    rw [List.map_map]
    exact List.map_congr_left fun entry hentry => h.identified entry hentry
  have hnodup : (prepared.map fun entry => datastoreKeyIdentity entry.1.key).Nodup := by
    rw [hidentities]
    exact (List.nodup_map_iff fun _ _ heq => Except.ok.inj heq).mpr h.nodup
  exact hnodup.sublist (hsent.sublist.map _)

theorem sentDistinct_nil {result : Except (BulkError E) Unit} :
    SentDistinct (⟨[], result⟩ : Run (Prepared P) E) := List.nodup_nil

end

/-- Entries are sent in order in batches within both limits, each entry at most once and all of them
when no call fails. The error of a failed call names its batch: what is before it was acknowledged,
what is after it was not sent. -/
theorem bulk_mutations_chunked :
    (∀ (T E : Type) (client : BulkClient T E) (chunkSize : Option Nat)
      (hpos : ∀ n ∈ chunkSize, 0 < n) (operation : BulkOperation) (items : List (T × Nat)),
      ChunkLaw client operation (chunkSize.getD MAX_SAFE_INTEGER) items
        (runBulkMutation client ⟨false, chunkSize, hpos, fun h => absurd h Bool.false_ne_true⟩
          operation (items.map Prod.fst) (items.map Prod.snd))) ∧
    (∀ (R E : Type) (client : BulkClient (Prepared BulkValue) E) (options : BulkOptions)
      (unindexed : Option (List Units))
      (normalize : Nat → R → Except (BulkError E) (DatastoreKey × BulkValue)) (entries : List R),
      SentDistinct (upsertMany client options unindexed normalize entries)) ∧
    ∀ (R E : Type) (client : BulkClient (Prepared Unit) E) (options : BulkOptions)
      (normalize : Nat → R → Except (BulkError E) (DatastoreKey × Unit)) (entries : List R),
      SentDistinct (deleteMany client options normalize entries) := by
  refine ⟨fun T E client chunkSize hpos operation items => ?_,
    fun R E client options unindexed normalize entries => ?_,
    fun R E client options normalize entries => ?_⟩
  · exact chunkLaw_runBulkMutation client ⟨false, chunkSize, hpos, _⟩ rfl operation items
  · rw [upsertMany]
    split
    · exact sentDistinct_nil
    · next hprepared =>
      split
      · exact sentDistinct_nil
      · exact (distinct_prepareEntries hprepared).sent (sent_runBulkMutation ..)
  · rw [deleteMany]
    split
    · exact sentDistinct_nil
    · next hprepared =>
      exact (distinct_prepareEntries hprepared).sent (sent_runBulkMutation ..)

end ActiveTs.Datastore.Bulk
