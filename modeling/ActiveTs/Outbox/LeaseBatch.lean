import ActiveTs.Lib.Keyset
import ActiveTs.Outbox.MemoryOutbox

/-! # The batch of a lease

`lease` goes through the outbox in the order of creation and claims every event that is available and
behind no other, up to its limit. A store with cursors hands out the listing page by page, while the
claims rewrite its rows. -/

namespace ActiveTs.Outbox

variable {D : Type}

/-! ## The listing -/

/-- The UTF-16 code units of a character. -/
def utf16Units (c : Char) : List Nat :=
  if c.toNat < 0x10000 then [c.toNat]
  else [0xD800 + (c.toNat - 0x10000) / 0x400, 0xDC00 + (c.toNat - 0x10000) % 0x400]

/-- The code units that strings are compared by. -/
def utf16 (s : String) : List Nat := s.toList.flatMap utf16Units

/-- The fields of the plan's sort. -/
structure CursorValues where
  createdAt : Nat
  sequence : Option String
  id : String
  deriving DecidableEq

def cursorValues (event : OutboxEvent D) : CursorValues :=
  ⟨event.createdAt, event.sequence, event.id⟩

/-- `compareRowToCursor`: a missing sequence comes first. -/
def compareRowToCursor : CursorValues → CursorValues → Ordering :=
  compareLex (compareOn (·.createdAt))
    (compareLex (compareOn fun values => values.sequence.map utf16)
      (compareOn fun values => utf16 values.id))

/-- `keysetCursorJson` without the creation date, whose ISO text has 24 characters. -/
def keysetCursorJson (values : CursorValues) : String :=
  "\x7b\"v\":1,\"kind\":\"keyset\",\"sort\":[" ++
    "\x7b\"field\":\"createdAt\",\"direction\":\"asc\"\x7d," ++
    "\x7b\"field\":\"sequence\",\"direction\":\"asc\"\x7d," ++
    "\x7b\"field\":\"id\",\"direction\":\"asc\"\x7d],\"values\":[\"\"," ++
    (values.sequence.map jsonString).getD "null" ++ "," ++ jsonString values.id ++ "]\x7d"

/-- The length of `encodeCursor`, the base64url text of the JSON text. -/
def encodedCursorLength (values : CursorValues) : Nat :=
  (4 * ((keysetCursorJson values).utf8ByteSize + 24) + 2) / 3

def MAX_CURSOR_LENGTH : Nat := 4096

/-- The events of a store, one for each id. -/
structure StoredEvents (D : Type) where
  rows : List (OutboxEvent D)
  nodup : (rows.map (·.id)).Nodup

inductive LeaseError
  /-- `assertSafeCursor`. -/
  | cursorTooLong
  | outOfFuel
  deriving DecidableEq

/-- `listPageWithContext` of a memory store. -/
def listPageWithContext (rows : List (OutboxEvent D)) (limit : Option Nat)
    (cursor : Option CursorValues) :
    Except LeaseError (Keyset.Page (OutboxEvent D) CursorValues) :=
  let page := Keyset.page compareRowToCursor cursorValues limit cursor rows
  if page.cursor.any fun values => MAX_CURSOR_LENGTH < encodedCursorLength values then
    .error .cursorTooLong
  else .ok page

/-! ## Leases -/

structure LeaseState (D : Type) where
  rows : List (OutboxEvent D)
  blockedEntityKeys : List String
  leased : List (OutboxEvent D)

section
variable [DecidableEq D]
  (documentIdentity : String → Option String → EntityId → Option DatastoreKey → String)
  (limit : Option Nat) (token : String) (now : Nat)

def leasedEvent (event : OutboxEvent D) : OutboxEvent D :=
  withOutboxLease event token (now + STORE_OUTBOX_LEASE_TTL_MS)

/-- The row with an id. -/
def findRow (rows : List (OutboxEvent D)) (id : String) : Option (OutboxEvent D) :=
  rows.find? fun row => row.id = id

def updateRow (rows : List (OutboxEvent D)) (next : OutboxEvent D) : List (OutboxEvent D) :=
  rows.map fun row => if row.id = next.id then next else row

/-- One round of the loop over a page. -/
def leaseEvent (s : LeaseState D) (event : OutboxEvent D) : LeaseState D :=
  let keysOf := outboxEntityOrderBlockKeys documentIdentity
  if event.deadLetteredAt.isSome then s
  else if outboxEntityOrderKeysBlocked s.blockedEntityKeys
        (outboxEntityOrderCheckKeys documentIdentity event) ||
      !isOutboxDeliveryAvailable event now || isOutboxLeaseActive event now then
    { s with blockedEntityKeys := s.blockedEntityKeys ++ keysOf event }
  else
    let current := findRow s.rows event.id
    match current.filter (isClaimable event now) with
    | some current =>
      let claimed := leasedEvent token now current
      { rows := updateRow s.rows claimed
        blockedEntityKeys := s.blockedEntityKeys ++ keysOf claimed
        leased := s.leased ++ [claimed] }
    | none =>
      { s with blockedEntityKeys := s.blockedEntityKeys ++ keysOf event ++ current.elim [] keysOf }

/-- The loop over a page, up to the claim that reaches the limit. -/
def leasePage : LeaseState D → List (OutboxEvent D) → LeaseState D
  | s, [] => s
  | s, event :: rest =>
    let next := leaseEvent documentIdentity token now s event
    if s.leased.length < next.leased.length && limit.any (· ≤ next.leased.length) then next
    else leasePage next rest

/-- The loop over the pages. -/
def leaseFrom (paged : Bool) :
    Nat → Option CursorValues → LeaseState D → Except LeaseError (LeaseState D)
  | 0, _, _ => .error .outOfFuel
  | fuel + 1, cursor, s =>
    let remaining := limit.map (· - s.leased.length)
    if remaining = some 0 then .ok s
    else
      (listPageWithContext s.rows (if paged then remaining else none) cursor).bind fun page =>
        let next := leasePage documentIdentity limit token now s page.list
        if !paged || !page.more || page.cursor.isNone then .ok next
        else if limit.all (next.leased.length < ·) then leaseFrom paged fuel page.cursor next
        else .ok next

/-- `StoreOutboxAdapter.lease` on a store that nobody else changes. -/
def leaseBatch (hasCursors : Bool) (store : StoredEvents D) : Except LeaseError (LeaseState D) :=
  leaseFrom documentIdentity limit token now (limit.isSome && hasCursors) (store.rows.length + 1)
    none ⟨store.rows, [], []⟩

end

/-! ## The order of the listing -/

theorem Char.toNat_valid (c : Char) : c.toNat < 0xD800 ∨ 0xDFFF < c.toNat ∧ c.toNat < 0x110000 :=
  c.valid

/-- The first code unit tells how many a character has. -/
theorem utf16Units_append_inj {a b : Char} {s t : List Nat}
    (h : utf16Units a ++ s = utf16Units b ++ t) : a = b ∧ s = t := by
  have ha := Char.toNat_valid a
  have hb := Char.toNat_valid b
  unfold utf16Units at h
  split at h <;> split at h
  · obtain ⟨hunit, hrest⟩ := List.cons.inj h
    exact ⟨Char.toNat_inj.mp hunit, hrest⟩
  · obtain ⟨hunit, -⟩ := List.cons.inj h
    omega
  · obtain ⟨hunit, -⟩ := List.cons.inj h
    omega
  · obtain ⟨hhigh, hlow⟩ := List.cons.inj h
    obtain ⟨hlow, hrest⟩ := List.cons.inj hlow
    exact ⟨Char.toNat_inj.mp (by omega), hrest⟩

theorem utf16_inj {s t : String} (h : utf16 s = utf16 t) : s = t := by
  have hchars : ∀ l l' : List Char, l.flatMap utf16Units = l'.flatMap utf16Units → l = l' := by
    have hne : ∀ c : Char, utf16Units c ≠ [] := by
      intro c
      unfold utf16Units
      split <;> exact List.cons_ne_nil _ _
    intro l
    induction l with
    | nil =>
      intro l' h
      cases l' with
      | nil => rfl
      | cons c l' => exact absurd (List.append_eq_nil_iff.mp h.symm).1 (hne c)
    | cons c l ih =>
      intro l' h
      cases l' with
      | nil => exact absurd (List.append_eq_nil_iff.mp h).1 (hne c)
      | cons c' l' =>
        obtain ⟨rfl, hrest⟩ := utf16Units_append_inj h
        rw [ih l' hrest]
  exact String.toList_inj.mp (hchars _ _ h)

instance : Std.TransCmp compareRowToCursor :=
  inferInstanceAs (Std.TransCmp (compareLex _ _))

instance : Std.LawfulEqCmp compareRowToCursor where
  compare_self := Std.ReflCmp.compare_self
  eq_of_compare {a b} h := by
    obtain ⟨hcreated, h⟩ := compareLex_eq_eq.mp h
    obtain ⟨hsequence, hid⟩ := compareLex_eq_eq.mp h
    have hcreated : a.createdAt = b.createdAt := Std.LawfulEqCmp.eq_of_compare hcreated
    have hsequence : a.sequence.map utf16 = b.sequence.map utf16 :=
      Std.LawfulEqCmp.eq_of_compare hsequence
    have hid : utf16 a.id = utf16 b.id := Std.LawfulEqCmp.eq_of_compare hid
    have hinj : Function.Injective utf16 := fun _ _ => utf16_inj
    obtain ⟨createdAt, sequence, id⟩ := a
    rw [CursorValues.mk.injEq]
    exact ⟨hcreated, Option.map_injective hinj hsequence, utf16_inj hid⟩

/-! ## What a lease may take -/

section
variable [DecidableEq D]
  (documentIdentity : String → Option String → EntityId → Option DatastoreKey → String)
  (token : String) (now : Nat)

/-- The event may be leased behind those before it: whoever conflicts with it is a dead letter. An
earlier event that is not a dead letter waits itself, is leased, or is being claimed. -/
def Leasable (before : List (OutboxEvent D)) (event : OutboxEvent D) : Bool :=
  event.deadLetteredAt.isNone && isOutboxDeliveryAvailable event now &&
    !isOutboxLeaseActive event now &&
    before.all fun earlier =>
      earlier.deadLetteredAt.isSome || !Conflicts documentIdentity earlier event

/-- The events that may be leased, after those before them. -/
def leasables (before : List (OutboxEvent D)) : List (OutboxEvent D) → List (OutboxEvent D)
  | [] => []
  | event :: rest =>
    if Leasable documentIdentity now before event then
      event :: leasables (before ++ [event]) rest
    else leasables (before ++ [event]) rest

def listedEvents (store : StoredEvents D) : List (OutboxEvent D) :=
  Keyset.listing compareRowToCursor cursorValues store.rows

/-- A row after the events of a batch have been leased. -/
def rowAfter (batch : List (OutboxEvent D)) (row : OutboxEvent D) : OutboxEvent D :=
  if row ∈ batch then leasedEvent token now row else row

/-- The loop has gone through the events of `done`. -/
structure Passed (store : StoredEvents D) (done : List (OutboxEvent D)) (s : LeaseState D) :
    Prop where
  rows : s.rows = store.rows.map (rowAfter token now (leasables documentIdentity now [] done))
  blocked : ∀ key, key ∈ s.blockedEntityKeys ↔ ∃ event ∈ done, event.deadLetteredAt = none ∧
    key ∈ outboxEntityOrderBlockKeys documentIdentity event
  leased : s.leased = (leasables documentIdentity now [] done).map (leasedEvent token now)

variable {documentIdentity token now} {store : StoredEvents D} {s : LeaseState D}
  {done before rest : List (OutboxEvent D)} {event : OutboxEvent D} {limit : Option Nat}

omit [DecidableEq D] in
theorem leasables_append (before events rest : List (OutboxEvent D)) :
    leasables documentIdentity now before (events ++ rest) =
      leasables documentIdentity now before events ++
        leasables documentIdentity now (before ++ events) rest := by
  induction events generalizing before with
  | nil => simp [leasables]
  | cons event events ih =>
    simp only [List.cons_append, leasables]
    split
    · rw [ih, List.append_assoc, List.cons_append]
      rfl
    · rw [ih, List.append_assoc]
      rfl

omit [DecidableEq D] in
theorem leasables_sublist (before events : List (OutboxEvent D)) :
    (leasables documentIdentity now before events).Sublist events := by
  induction events generalizing before with
  | nil => exact .slnil
  | cons event rest ih =>
    unfold leasables
    split
    · exact (ih _).cons_cons event
    · exact (ih _).cons event

omit [DecidableEq D] in
theorem leasables_concat (done : List (OutboxEvent D)) (event : OutboxEvent D) :
    leasables documentIdentity now [] (done ++ [event]) =
      leasables documentIdentity now [] done ++
        if Leasable documentIdentity now done event then [event] else [] := by
  rw [leasables_append, List.nil_append]
  rfl

theorem id_rowAfter (batch : List (OutboxEvent D)) (row : OutboxEvent D) :
    (rowAfter token now batch row).id = row.id := by
  unfold rowAfter
  split
  · rfl
  · rfl

theorem cursorValues_rowAfter (batch : List (OutboxEvent D)) (row : OutboxEvent D) :
    cursorValues (rowAfter token now batch row) = cursorValues row := by
  unfold rowAfter
  split
  · rfl
  · rfl

omit [DecidableEq D] in
theorem outboxEntityOrderBlockKeys_leasedEvent (event : OutboxEvent D) :
    outboxEntityOrderBlockKeys documentIdentity (leasedEvent token now event) =
      outboxEntityOrderBlockKeys documentIdentity event := rfl

omit [DecidableEq D] in
theorem eq_of_id_eq {a b : OutboxEvent D} (ha : a ∈ store.rows) (hb : b ∈ store.rows)
    (h : a.id = b.id) : a = b :=
  List.inj_on_of_nodup_map store.nodup ha hb h

/-- The row of an event that is not in the batch is the event. -/
theorem findRow_map {batch : List (OutboxEvent D)} (hevent : event ∈ store.rows)
    (hbatch : event ∉ batch) :
    findRow (store.rows.map (rowAfter token now batch)) event.id = some event := by
  have hrow : rowAfter token now batch event = event := if_neg hbatch
  unfold findRow
  rw [List.find?_map, Option.map_eq_some_iff]
  refine ⟨event, ?_, hrow⟩
  have hsame : ((fun row : OutboxEvent D => decide (row.id = event.id)) ∘ rowAfter token now batch) =
      fun row => decide (row.id = event.id) := by
    funext row
    rw [Function.comp, id_rowAfter]
  rw [hsame]
  obtain ⟨found, hfound⟩ := Option.isSome_iff_exists.mp
    (List.find?_isSome.mpr ⟨event, hevent, decide_eq_true rfl⟩ :
      (store.rows.find? fun row => decide (row.id = event.id)).isSome = true)
  have htest : decide (found.id = event.id) = true :=
    @List.find?_some _ (fun row : OutboxEvent D => decide (row.id = event.id)) _ _ hfound
  have hid : found.id = event.id := of_decide_eq_true htest
  rw [hfound, eq_of_id_eq (List.mem_of_find?_eq_some hfound) hevent hid]

/-- Writing a leased event. -/
theorem updateRow_map {batch : List (OutboxEvent D)} (hevent : event ∈ store.rows)
    (hbatch : event ∉ batch) :
    updateRow (store.rows.map (rowAfter token now batch)) (leasedEvent token now event) =
      store.rows.map (rowAfter token now (batch ++ [event])) := by
  unfold updateRow
  rw [List.map_map]
  refine List.map_congr_left fun row hrow => ?_
  rw [Function.comp, id_rowAfter]
  by_cases hid : row.id = event.id
  · obtain rfl := eq_of_id_eq hrow hevent hid
    have hmem : row ∈ batch ++ [row] := List.mem_append_right _ (List.mem_singleton_self _)
    rw [rowAfter, rowAfter, if_pos hmem]
    exact if_pos rfl
  · have hne : row ∉ [event] := fun h => hid (congrArg _ (List.mem_singleton.mp h))
    have hmem : row ∈ batch ++ [event] ↔ row ∈ batch :=
      ⟨fun h => (List.mem_append.mp h).resolve_right hne, List.mem_append_left _⟩
    have hif : ¬ row.id = (leasedEvent token now event).id := hid
    rw [if_neg hif, rowAfter, rowAfter]
    simp only [hmem]

theorem Passed.isBlocked (h : Passed documentIdentity token now store done s) :
    outboxEntityOrderKeysBlocked s.blockedEntityKeys
        (outboxEntityOrderCheckKeys documentIdentity event) =
      !done.all fun earlier =>
        earlier.deadLetteredAt.isSome || !Conflicts documentIdentity earlier event := by
  rw [Bool.eq_iff_iff, outboxEntityOrderKeysBlocked_iff, Bool.not_eq_true', List.all_eq_false]
  constructor
  · rintro ⟨key, hkey, hmem⟩
    obtain ⟨earlier, hearlier, halive, hblock⟩ := (h.blocked key).mp hmem
    refine ⟨earlier, hearlier, ?_⟩
    have hconflict : Conflicts documentIdentity earlier event = true :=
      outboxEntityOrderKeysBlocked_iff.mpr ⟨key, hkey, hblock⟩
    rw [halive, hconflict]
    exact Bool.false_ne_true
  · rintro ⟨earlier, hearlier, hblocks⟩
    rw [Bool.not_eq_true, Bool.or_eq_false_iff, Bool.not_eq_false'] at hblocks
    obtain ⟨halive, hconflict⟩ := hblocks
    obtain ⟨key, hkey, hblock⟩ := outboxEntityOrderKeysBlocked_iff.mp hconflict
    exact ⟨key, hkey, (h.blocked key).mpr
      ⟨earlier, hearlier, Option.isNone_iff_eq_none.mp (by simpa using halive), hblock⟩⟩

/-- A round claims the event if it may be leased. -/
theorem Passed.leaseEvent (h : Passed documentIdentity token now store done s)
    (hevent : event ∈ store.rows) (hnew : event ∉ done) :
    Passed documentIdentity token now store (done ++ [event])
      (leaseEvent documentIdentity token now s event) := by
  have hbatch : event ∉ leasables documentIdentity now [] done := fun hmem =>
    hnew ((leasables_sublist [] done).subset hmem)
  have hkeys : ∀ (keys : List String) key, (∀ k, k ∈ keys ↔ k ∈ s.blockedEntityKeys ∨
      event.deadLetteredAt = none ∧ k ∈ outboxEntityOrderBlockKeys documentIdentity event) →
      (key ∈ keys ↔ ∃ other ∈ done ++ [event], other.deadLetteredAt = none ∧
        key ∈ outboxEntityOrderBlockKeys documentIdentity other) := by
    intro keys key hkeys
    rw [hkeys, h.blocked]
    simp only [List.mem_append, List.mem_singleton, or_and_right, exists_or, exists_eq_left]
  have hskip : Leasable documentIdentity now done event = false →
      leasables documentIdentity now [] (done ++ [event]) =
        leasables documentIdentity now [] done := by
    intro hno
    rw [leasables_concat, if_neg (by rw [hno]; exact Bool.false_ne_true), List.append_nil]
  unfold ActiveTs.Outbox.leaseEvent
  rw [h.isBlocked]
  cases hdead : event.deadLetteredAt with
  | some at_ =>
    have hno := hskip (by simp [Leasable, hdead])
    refine ⟨by rw [hno]; exact h.rows, fun key => hkeys _ key fun k => ?_,
      by rw [hno]; exact h.leased⟩
    simp [hdead]
  | none =>
    rw [if_neg (by simp)]
    split
    · next hwaits =>
      have hno := hskip (by
        unfold Leasable
        simp only [Bool.or_eq_true, Bool.not_eq_true'] at hwaits
        rcases hwaits with (hwaits | hwaits) | hwaits <;> simp [hwaits])
      refine ⟨by rw [hno]; exact h.rows, fun key => hkeys _ key fun k => ?_,
        by rw [hno]; exact h.leased⟩
      simp [hdead]
    · next hclaims =>
      simp only [Bool.or_eq_true, Bool.not_eq_true', not_or, Bool.not_eq_false,
        Bool.not_eq_true] at hclaims
      obtain ⟨⟨hfree, havailable⟩, hunleased⟩ := hclaims
      have hyes : Leasable documentIdentity now done event = true := by
        simp [Leasable, hdead, havailable, hunleased, hfree]
      have hclaimable : isClaimable event now event = true := by
        simp [isClaimable, hdead, havailable, hunleased, isOutboxSnapshotCurrent]
      rw [h.rows, findRow_map hevent hbatch]
      dsimp only
      rw [Option.filter_some, if_pos hclaimable]
      dsimp only
      have hbatch' : leasables documentIdentity now [] (done ++ [event]) =
          leasables documentIdentity now [] done ++ [event] := by
        rw [leasables_concat, if_pos hyes]
      refine ⟨?_, fun key => hkeys _ key fun k => ?_, ?_⟩
      · rw [hbatch']
        exact updateRow_map hevent hbatch
      · rw [outboxEntityOrderBlockKeys_leasedEvent, List.mem_append]
        simp [hdead]
      · rw [hbatch', List.map_append, h.leased]
        rfl

/-! ## The loops -/

/-- A round leases one event more or none. -/
theorem Passed.length_le (h : Passed documentIdentity token now store done s) {s' : LeaseState D}
    (h' : Passed documentIdentity token now store (done ++ [event]) s') :
    s.leased.length ≤ s'.leased.length ∧ s'.leased.length ≤ s.leased.length + 1 := by
  rw [h.leased, h'.leased, leasables_concat, List.length_map, List.length_map, List.length_append]
  split
  · exact ⟨Nat.le_add_right _ _, Nat.le_refl _⟩
  · exact ⟨Nat.le_refl _, Nat.le_succ _⟩

/-- A loop ends with its events, or where the limit is reached. -/
structure LeaseEnded (documentIdentity : String → Option String → EntityId → Option DatastoreKey → String)
    (token : String) (now : Nat) (store : StoredEvents D) (limit : Option Nat)
    (done rest : List (OutboxEvent D)) (s : LeaseState D) : Prop where
  passed : Passed documentIdentity token now store done s
  le : limit.all (s.leased.length ≤ ·) = true
  full : rest = [] ∨ limit = some s.leased.length

theorem leasePage_ended (events : List (OutboxEvent D))
    (h : Passed documentIdentity token now store done s)
    (hnodup : (done ++ events).Nodup) (hsub : events ⊆ store.rows)
    (hopen : limit.all (s.leased.length < ·) = true) :
    ∃ visited rest, events = visited ++ rest ∧
      LeaseEnded documentIdentity token now store limit (done ++ visited) rest
        (leasePage documentIdentity limit token now s events) := by
  induction events generalizing done s with
  | nil =>
    refine ⟨[], [], rfl, ?_, ?_, .inl rfl⟩
    · rw [List.append_nil]
      exact h
    · cases limit with
      | none => rfl
      | some n => exact decide_eq_true (Nat.le_of_lt (of_decide_eq_true hopen))
  | cons event rest ih =>
    obtain ⟨hevent, hrest⟩ := List.cons_subset.mp hsub
    have hnew : event ∉ done := fun hmem =>
      (List.nodup_append.mp hnodup).2.2 event hmem event List.mem_cons_self rfl
    have hnext := h.leaseEvent hevent hnew
    obtain ⟨hle, hle'⟩ := h.length_le hnext
    rw [leasePage]
    split
    · next hstop =>
      rw [Bool.and_eq_true, decide_eq_true_eq] at hstop
      obtain ⟨hmore, hfull⟩ := hstop
      cases limit with
      | none => cases hfull
      | some n =>
        have hlt : s.leased.length < n := of_decide_eq_true hopen
        have hge : n ≤ _ := of_decide_eq_true hfull
        refine ⟨[event], rest, rfl, hnext, decide_eq_true (by omega), .inr (congrArg some (by omega))⟩
    · next hgo =>
      have hopen' : limit.all
          ((leaseEvent documentIdentity token now s event).leased.length < ·) = true := by
        cases limit with
        | none => rfl
        | some n =>
          have hlt : s.leased.length < n := of_decide_eq_true hopen
          simp only [Option.any_some, Bool.and_eq_true, decide_eq_true_eq, not_and_or] at hgo
          exact decide_eq_true (by omega)
      rw [← List.singleton_append, ← List.append_assoc] at hnodup
      obtain ⟨visited, others, rfl, hended⟩ := ih hnext hnodup hrest hopen'
      refine ⟨event :: visited, others, rfl, ?_⟩
      rw [List.append_assoc, List.singleton_append] at hended
      exact hended

omit [DecidableEq D] in
theorem cursorValues_nodup (store : StoredEvents D) : (store.rows.map cursorValues).Nodup := by
  apply List.Nodup.of_map CursorValues.id
  rw [List.map_map]
  exact store.nodup

omit [DecidableEq D] in
theorem listedEvents_perm (store : StoredEvents D) : (listedEvents store).Perm store.rows :=
  Keyset.listing_perm _

omit [DecidableEq D] in
theorem listedEvents_nodup (store : StoredEvents D) : (listedEvents store).Nodup :=
  (listedEvents_perm store).nodup_iff.mpr (List.Nodup.of_map _ store.nodup)

/-- The claims of a lease do not move the rows that are still to come. -/
theorem afterCursor_passed (h : Passed documentIdentity token now store done s)
    (hlist : listedEvents store = done ++ rest) :
    Keyset.afterCursor compareRowToCursor cursorValues (done.getLast?.map cursorValues)
      (Keyset.listing compareRowToCursor cursorValues s.rows) = rest := by
  have hincreasing := @Keyset.listing_increasing _ _ compareRowToCursor cursorValues _ _ _
    (cursorValues_nodup store)
  have hrest : Keyset.afterCursor compareRowToCursor cursorValues
      (done.getLast?.map cursorValues) (listedEvents store) = rest := by
    rcases List.eq_nil_or_concat done with rfl | ⟨before, last, rfl⟩
    · exact hlist
    · rw [List.concat_eq_append, List.append_assoc, List.singleton_append] at hlist
      rw [List.concat_eq_append, List.getLast?_append, List.getLast?_singleton, Option.some_or,
        Option.map_some, hlist]
      apply Keyset.afterCursor_append
      rw [← hlist]
      exact hincreasing
  rw [h.rows, Keyset.listing_map _ fun row _ => cursorValues_rowAfter _ row,
    Keyset.map_key_afterCursor fun row _ => cursorValues_rowAfter _ row]
  change (Keyset.afterCursor compareRowToCursor cursorValues _ (listedEvents store)).map _ = rest
  rw [hrest]
  have hnodup := listedEvents_nodup store
  rw [hlist] at hnodup
  have hsame : ∀ row ∈ rest,
      rowAfter token now (leasables documentIdentity now [] done) row = id row := by
    intro row hrow
    refine if_neg fun hmem => ?_
    exact (List.nodup_append.mp hnodup).2.2 row ((leasables_sublist [] done).subset hmem) row hrow rfl
  rw [List.map_congr_left hsame, List.map_id]

/-- The cursor of this event is refused. -/
def HasLongCursor (event : OutboxEvent D) : Prop :=
  MAX_CURSOR_LENGTH < encodedCursorLength (cursorValues event)

theorem leaseFrom_ended {paged : Bool} (hpaged : paged = true → limit.isSome = true) (fuel : Nat)
    (hfuel : rest.length < fuel) (h : Passed documentIdentity token now store done s)
    (hle : limit.all (s.leased.length ≤ ·) = true) (hlist : listedEvents store = done ++ rest) :
    (∃ s' visited others, listedEvents store = visited ++ others ∧
      leaseFrom documentIdentity limit token now paged fuel (done.getLast?.map cursorValues) s =
        .ok s' ∧ LeaseEnded documentIdentity token now store limit visited others s') ∨
    paged = true ∧ (∃ event ∈ listedEvents store, HasLongCursor event) ∧
      leaseFrom documentIdentity limit token now paged fuel (done.getLast?.map cursorValues) s =
        .error .cursorTooLong := by
  induction fuel generalizing done rest s with
  | zero => exact absurd hfuel (Nat.not_lt_zero _)
  | succ fuel ih =>
    have hsub : rest ⊆ store.rows := fun row hrow =>
      (listedEvents_perm store).subset (hlist ▸ List.mem_append_right _ hrow)
    have hnodup : (done ++ rest).Nodup := hlist ▸ listedEvents_nodup store
    rw [leaseFrom]
    dsimp only
    split
    · next hdone =>
      obtain ⟨n, rfl, hn⟩ := Option.map_eq_some_iff.mp hdone
      have hle : s.leased.length ≤ n := of_decide_eq_true hle
      exact .inl ⟨s, done, rest, hlist, rfl, h, decide_eq_true hle, .inr (congrArg some (by omega))⟩
    · next hmore =>
      have hopen : limit.all (s.leased.length < ·) = true := by
        cases limit with
        | none => rfl
        | some n =>
          refine decide_eq_true (Nat.lt_of_not_le fun hge => hmore ?_)
          exact congrArg some (Nat.sub_eq_zero_of_le hge)
      rw [listPageWithContext, Keyset.page, afterCursor_passed h hlist]
      have hall : ∀ page : List (OutboxEvent D), page = rest → ∃ s' visited others,
          listedEvents store = visited ++ others ∧
            leasePage documentIdentity limit token now s page = s' ∧
              LeaseEnded documentIdentity token now store limit visited others s' := by
        rintro page rfl
        obtain ⟨visited, others, hsplit, hended⟩ := leasePage_ended page h hnodup hsub hopen
        refine ⟨_, done ++ visited, others, ?_, rfl, hended⟩
        rw [hlist, hsplit, List.append_assoc]
      cases hlimit : (if paged = true then limit.map (· - s.leased.length) else none) with
      | none =>
        have hunpaged : paged = false := by
          cases paged with
          | false => rfl
          | true =>
            rw [if_pos rfl, Option.map_eq_none_iff] at hlimit
            rw [hlimit] at hpaged
            cases hpaged rfl
        obtain ⟨s', visited, others, hsplit, hs', hended⟩ := hall rest rfl
        refine .inl ⟨s', visited, others, hsplit, ?_, hended⟩
        subst hunpaged
        rw [← hs']
        rfl
      | some k =>
        obtain ⟨rfl, hk⟩ : paged = true ∧ limit.map (· - s.leased.length) = some k := by
          cases paged with
          | true => exact ⟨rfl, hlimit⟩
          | false => cases hlimit
        have hpos : 0 < k := Nat.pos_of_ne_zero fun h => hmore (h ▸ hk)
        rw [Keyset.pageOf]
        dsimp only
        by_cases hrest : k < rest.length
        · obtain ⟨last, hlast⟩ : ∃ last, (rest.take k).getLast? = some last := by
            rw [← Option.isSome_iff_exists, List.getLast?_isSome]
            intro hnil
            rcases List.take_eq_nil_iff.mp hnil with hzero | hzero
            · omega
            · rw [hzero] at hrest
              exact absurd hrest (Nat.not_lt_zero _)
          have hmem : last ∈ listedEvents store := by
            rw [hlist]
            exact List.mem_append_right _ (List.mem_of_mem_take (List.mem_of_getLast? hlast))
          simp only [hlast, Option.map_some, decide_eq_true hrest, if_true, Option.any_some]
          by_cases hlong : HasLongCursor last
          · refine .inr ⟨trivial, ⟨last, hmem, hlong⟩, ?_⟩
            unfold HasLongCursor at hlong
            rw [if_pos (decide_eq_true hlong)]
            rfl
          rw [if_neg (by rw [decide_eq_true_eq]; exact hlong)]
          have hnodup' : (done ++ rest.take k).Nodup :=
            hnodup.sublist ((List.take_sublist k rest).append_left done)
          obtain ⟨visited, others, hsplit, hended⟩ := leasePage_ended (rest.take k) h hnodup'
            (List.Subset.trans (List.take_subset k rest) hsub) hopen
          simp only [Except.bind, Bool.not_true, Option.isNone_some, Bool.or_false,
            Bool.false_eq_true, if_false]
          generalize leasePage documentIdentity limit token now s (rest.take k) = next at hended ⊢
          by_cases hagain : limit.all (next.leased.length < ·) = true
          · rw [if_pos hagain]
            have hothers : others = [] := hended.full.resolve_right fun hfull => by
              rw [hfull] at hagain
              exact Nat.lt_irrefl _ (of_decide_eq_true hagain)
            rw [hothers, List.append_nil] at hsplit
            have hcursor : (done ++ rest.take k).getLast?.map cursorValues =
                some (cursorValues last) := by
              rw [List.getLast?_append, hlast, Option.some_or, Option.map_some]
            rw [← hcursor]
            have hfuel' : (rest.drop k).length < fuel := by
              rw [List.length_drop]
              omega
            have hlist' : listedEvents store = (done ++ rest.take k) ++ rest.drop k := by
              rw [hlist, List.append_assoc, List.take_append_drop]
            have hpassed : Passed documentIdentity token now store (done ++ rest.take k) next := by
              rw [hsplit]
              exact hended.passed
            exact (ih hfuel' hpassed hended.le hlist').imp_right fun h => ⟨trivial, h.2⟩
          · rw [if_neg hagain]
            refine .inl ⟨_, done ++ visited, others ++ rest.drop k, ?_, rfl, hended.passed,
              hended.le, .inr ?_⟩
            · rw [hlist, List.append_assoc, ← List.append_assoc visited, ← hsplit,
                List.take_append_drop]
            · cases limit with
              | none => exact absurd rfl hagain
              | some n =>
                have hle' : _ ≤ n := of_decide_eq_true hended.le
                have hge : ¬ _ < n := fun hlt => hagain (decide_eq_true hlt)
                exact congrArg some (by omega)
        · have htake : rest.take k = rest := List.take_of_length_le (Nat.le_of_not_lt hrest)
          obtain ⟨s', visited, others, hsplit, hs', hended⟩ := hall rest rfl
          refine .inl ⟨s', visited, others, hsplit, ?_, hended⟩
          rw [htake, decide_eq_false hrest, ← hs']
          rfl

/-! ## The batch -/

/-- The events that may be leased, up to the limit. -/
def batchOf (documentIdentity : String → Option String → EntityId → Option DatastoreKey → String)
    (now : Nat) (limit : Option Nat) (listing : List (OutboxEvent D)) : List (OutboxEvent D) :=
  limit.elim (leasables documentIdentity now [] listing)
    (leasables documentIdentity now [] listing).take

theorem LeaseEnded.batch {visited others : List (OutboxEvent D)}
    (h : LeaseEnded documentIdentity token now store limit visited others s) :
    leasables documentIdentity now [] visited =
      batchOf documentIdentity now limit (visited ++ others) := by
  have hlength : s.leased.length = (leasables documentIdentity now [] visited).length := by
    rw [h.passed.leased, List.length_map]
  unfold batchOf
  rw [leasables_append]
  rcases h.full with rfl | rfl
  · rw [leasables, List.append_nil]
    cases limit with
    | none => rfl
    | some n => exact (List.take_of_length_le (hlength ▸ of_decide_eq_true h.le)).symm
  · rw [hlength]
    exact List.take_left.symm

omit [DecidableEq D] in
theorem batchOf_sublist (listing : List (OutboxEvent D)) :
    (batchOf documentIdentity now limit listing).Sublist
      (leasables documentIdentity now [] listing) := by
  cases limit with
  | none => exact .refl _
  | some n => exact List.take_sublist n _

omit [DecidableEq D] in
/-- An event that may be leased has nothing alive before it that it conflicts with. -/
theorem Leasable.conflicts {earlier : OutboxEvent D}
    (h : Leasable documentIdentity now before event = true) (hearlier : earlier ∈ before)
    (halive : earlier.deadLetteredAt = none) : Conflicts documentIdentity earlier event = false := by
  unfold Leasable at h
  rw [Bool.and_eq_true, List.all_eq_true] at h
  have hearlier := h.2 earlier hearlier
  rw [halive] at hearlier
  simpa using hearlier

omit [DecidableEq D] in
theorem Leasable.alive (h : Leasable documentIdentity now before event = true) :
    event.deadLetteredAt = none := by
  simp only [Leasable, Bool.and_eq_true, Option.isNone_iff_eq_none] at h
  exact h.1.1.1

omit [DecidableEq D] in
theorem exists_of_mem_leasables {events : List (OutboxEvent D)}
    (h : event ∈ leasables documentIdentity now before events) :
    ∃ front back, events = front ++ event :: back ∧
      Leasable documentIdentity now (before ++ front) event = true := by
  induction events generalizing before with
  | nil => exact absurd h List.not_mem_nil
  | cons first rest ih =>
    have htail : event ∈ leasables documentIdentity now (before ++ [first]) rest →
        ∃ front back, first :: rest = front ++ event :: back ∧
          Leasable documentIdentity now (before ++ front) event = true := by
      intro hmem
      obtain ⟨front, back, rfl, hleasable⟩ := ih hmem
      refine ⟨first :: front, back, rfl, ?_⟩
      rw [List.append_assoc, List.singleton_append] at hleasable
      exact hleasable
    unfold leasables at h
    split at h
    · next hfirst =>
      rcases List.mem_cons.mp h with rfl | hmem
      · refine ⟨[], rest, rfl, ?_⟩
        rw [List.append_nil]
        exact hfirst
      · exact htail hmem
    · exact htail h

omit [DecidableEq D] in
theorem leasables_compatible (before events : List (OutboxEvent D)) :
    (leasables documentIdentity now before events).Pairwise fun earlier later =>
      Conflicts documentIdentity earlier later = false := by
  induction events generalizing before with
  | nil => exact .nil
  | cons event rest ih =>
    unfold leasables
    split
    · next hevent =>
      refine List.pairwise_cons.mpr ⟨fun later hlater => ?_, ih _⟩
      obtain ⟨front, back, -, hleasable⟩ := exists_of_mem_leasables hlater
      exact Leasable.conflicts hleasable (List.mem_append_left _
        (List.mem_append_right _ (List.mem_singleton_self _))) (Leasable.alive hevent)
    · exact ih _

end

section
variable [DecidableEq D]
  (documentIdentity : String → Option String → EntityId → Option DatastoreKey → String)
  (token : String) (now : Nat)

/-- What a lease promises. -/
structure LeasedBatch (listing : List (OutboxEvent D)) (limit : Option Nat)
    (leased : List (OutboxEvent D)) : Prop where
  listed : ∃ batch : List (OutboxEvent D), batch.Sublist listing ∧ leased = batch.map (leasedEvent token now)
  compatible : leased.Pairwise fun earlier later =>
    Conflicts documentIdentity earlier later = false
  first : ∀ before event after, listing = before ++ event :: after →
    leasedEvent token now event ∈ leased → ∀ earlier ∈ before, earlier.deadLetteredAt = none →
      Conflicts documentIdentity earlier event = false
  /-- An event is passed over only when the limit is reached before it. -/
  complete : ∀ before event after, listing = before ++ event :: after →
    Leasable documentIdentity now before event = true → leasedEvent token now event ∈ leased ∨
      limit = some leased.length ∧ ∀ other ∈ leased, ∃ earlier ∈ before,
        other = leasedEvent token now earlier

variable {documentIdentity token now} {store : StoredEvents D} {limit : Option Nat}

omit [DecidableEq D] in
theorem leasedBatch_batchOf (store : StoredEvents D) (limit : Option Nat) :
    LeasedBatch documentIdentity token now (listedEvents store) limit
      ((batchOf documentIdentity now limit (listedEvents store)).map (leasedEvent token now)) where
  listed := ⟨_, (batchOf_sublist _).trans (leasables_sublist _ _), rfl⟩
  compatible :=
    List.pairwise_map.mpr ((leasables_compatible [] _).sublist (batchOf_sublist _))
  first before event after hlist hleased earlier hearlier halive := by
    obtain ⟨event', hevent', hsame⟩ := List.mem_map.mp hleased
    obtain ⟨front, back, hsplit, hleasable⟩ :=
      exists_of_mem_leasables ((batchOf_sublist _).subset hevent')
    have hmem : event' ∈ listedEvents store := hsplit ▸ List.mem_append_right _ List.mem_cons_self
    have hmem' : event ∈ listedEvents store := hlist ▸ List.mem_append_right _ List.mem_cons_self
    have hid : event'.id = event.id := congrArg (·.id) hsame
    obtain rfl := eq_of_id_eq ((listedEvents_perm store).subset hmem)
      ((listedEvents_perm store).subset hmem') hid
    have hnodup := listedEvents_nodup store
    rw [hsplit] at hnodup hlist
    obtain ⟨-, hback, hdisjoint⟩ := List.nodup_append.mp hnodup
    obtain ⟨rfl, -, -⟩ := (List.append_cons_inj_of_notMem
      (fun hmem => hdisjoint _ hmem _ List.mem_cons_self rfl) (List.nodup_cons.mp hback).1).mp hlist
    rw [List.nil_append] at hleasable
    exact Leasable.conflicts hleasable hearlier halive
  complete before event after hlist hleasable := by
    have hlisting : leasables documentIdentity now [] (listedEvents store) =
        leasables documentIdentity now [] before ++
          event :: leasables documentIdentity now (before ++ [event]) after := by
      rw [hlist, leasables_append, List.nil_append, leasables, if_pos hleasable]
    unfold batchOf
    rw [hlisting]
    cases limit with
    | none =>
      exact .inl (List.mem_map_of_mem (List.mem_append_right _ List.mem_cons_self))
    | some n =>
      rcases Nat.lt_or_ge (leasables documentIdentity now [] before).length n with hlt | hge
      · left
        apply List.mem_map_of_mem
        change event ∈ List.take n _
        rw [List.take_append, List.take_cons (by omega)]
        exact List.mem_append_right _ List.mem_cons_self
      · right
        have htake : List.take n (leasables documentIdentity now [] before ++ event ::
            leasables documentIdentity now (before ++ [event]) after) =
              (leasables documentIdentity now [] before).take n :=
          List.take_append_of_le_length hge
        change some n = some (List.map _ (List.take n _)).length ∧ ∀ other ∈ List.map _ (List.take n _), _
        rw [htake]
        refine ⟨?_, fun other hother => ?_⟩
        · rw [List.length_map, List.length_take, Nat.min_eq_left hge]
        · obtain ⟨earlier, hearlier, rfl⟩ := List.mem_map.mp hother
          exact ⟨earlier, (leasables_sublist _ _).subset (List.mem_of_mem_take hearlier), rfl⟩

theorem passed_nil : Passed documentIdentity token now store [] ⟨store.rows, [], []⟩ where
  rows := by
    have hsame : ∀ row ∈ store.rows, rowAfter token now [] row = id row := fun _ _ =>
      if_neg List.not_mem_nil
    rw [leasables, List.map_congr_left hsame, List.map_id]
  blocked key := by simp
  leased := rfl

theorem leaseBatch_ended
    (documentIdentity : String → Option String → EntityId → Option DatastoreKey → String)
    (token : String) (now : Nat) (limit : Option Nat) (hasCursors : Bool) (store : StoredEvents D) :
    (∃ s, leaseBatch documentIdentity limit token now hasCursors store = .ok s ∧
      s.leased = (batchOf documentIdentity now limit (listedEvents store)).map
        (leasedEvent token now) ∧
      s.rows = store.rows.map
        (rowAfter token now (batchOf documentIdentity now limit (listedEvents store)))) ∨
    hasCursors = true ∧ (∃ event ∈ listedEvents store, HasLongCursor event) ∧
      leaseBatch documentIdentity limit token now hasCursors store = .error .cursorTooLong := by
  have hfuel : (listedEvents store).length < store.rows.length + 1 := by
    rw [(listedEvents_perm store).length_eq]
    exact Nat.lt_succ_self _
  have hle : limit.all (([] : List (OutboxEvent D)).length ≤ ·) = true := by
    cases limit with
    | none => rfl
    | some n => exact decide_eq_true (Nat.zero_le n)
  have hpaged : (limit.isSome && hasCursors) = true → limit.isSome = true := fun h =>
    (Bool.and_eq_true_iff.mp h).1
  rcases leaseFrom_ended hpaged (store.rows.length + 1) hfuel passed_nil hle rfl with
    ⟨s, visited, others, hlist, hrun, hended⟩ | ⟨hcursors, hlong, hrun⟩
  · refine .inl ⟨s, hrun, ?_, ?_⟩
    · rw [hlist, ← hended.batch]
      exact hended.passed.leased
    · rw [hlist, ← hended.batch]
      exact hended.passed.rows
  · exact .inr ⟨(Bool.and_eq_true_iff.mp hcursors).2, hlong, hrun⟩

/-- Every page but the last has a cursor. -/
theorem leaseBatch_longCursor {n : Nat} (hpos : 0 < n) (hmore : n < store.rows.length)
    (hlong : ∀ event ∈ store.rows, HasLongCursor event) :
    leaseBatch documentIdentity (some n) token now true store = .error .cursorTooLong := by
  have hlength : n < (listedEvents store).length := by
    rw [(listedEvents_perm store).length_eq]
    exact hmore
  obtain ⟨last, hlast⟩ : ∃ last, ((listedEvents store).take n).getLast? = some last := by
    rw [← Option.isSome_iff_exists, List.getLast?_isSome]
    intro hnil
    rcases List.take_eq_nil_iff.mp hnil with hzero | hzero
    · omega
    · rw [hzero] at hlength
      exact absurd hlength (Nat.not_lt_zero _)
  have hlast' : HasLongCursor last := hlong last ((listedEvents_perm store).subset
    (List.mem_of_mem_take (List.mem_of_getLast? hlast)))
  have hpage : listPageWithContext store.rows (some n) none = .error .cursorTooLong := by
    unfold listPageWithContext Keyset.page Keyset.pageOf
    change (if (if decide (n < (listedEvents store).length) = true then
      Option.map cursorValues ((listedEvents store).take n).getLast? else none).any _ = true
        then _ else _) = _
    unfold HasLongCursor at hlast'
    rw [if_pos (decide_eq_true hlength), hlast]
    exact if_pos (decide_eq_true hlast')
  have hremaining : (some n).map (· - ([] : List (OutboxEvent D)).length) ≠ some 0 := by
    intro hzero
    have := Option.some.inj hzero
    simp only [List.length_nil] at this
    omega
  unfold leaseBatch leaseFrom
  dsimp only
  rw [if_neg hremaining]
  change Except.bind (listPageWithContext store.rows (some n) none) _ = _
  rw [hpage]
  rfl

end

/-! Two events with sequences as long as they may be. -/

theorem length_le_utf8ByteSize (l : List Char) : l.length ≤ (String.ofList l).utf8ByteSize := by
  induction l with
  | nil => exact Nat.zero_le _
  | cons c l ih =>
    have hpos := Char.utf8Size_pos c
    rw [String.ofList_cons, String.utf8ByteSize_append, String.utf8ByteSize_singleton,
      List.length_cons]
    omega

def longSequence : String := String.ofList (List.replicate 4096 'a')

def longEvent (id : String) : OutboxEvent Unit :=
  { waitingEvent with id := id, availableAt := none, sequence := some longSequence }

theorem le_jsonString_replicate (n : Nat) :
    n ≤ (jsonString (String.ofList (List.replicate n 'a'))).utf8ByteSize := by
  have hchar : jsonChar 'a' = ['a'] := by decide
  have hflat : (List.replicate n 'a').flatMap jsonChar = List.replicate n 'a' := by
    induction n with
    | zero => rfl
    | succ n ih => rw [List.replicate_succ, List.flatMap_cons, ih, hchar, List.singleton_append]
  have hle := length_le_utf8ByteSize (List.replicate n 'a')
  rw [List.length_replicate] at hle
  rw [jsonString, String.toList_ofList, hflat, String.utf8ByteSize_append,
    String.utf8ByteSize_append]
  omega

theorem hasLongCursor_of_sequence {event : OutboxEvent D} {sequence : String}
    (hsequence : event.sequence = some sequence) (hlong : 4096 ≤ (jsonString sequence).utf8ByteSize) :
    HasLongCursor event := by
  unfold HasLongCursor encodedCursorLength MAX_CURSOR_LENGTH keysetCursorJson cursorValues
  simp only [String.utf8ByteSize_append, hsequence, Option.map_some, Option.getD_some]
  omega

theorem hasLongCursor_longEvent (id : String) : HasLongCursor (longEvent id) :=
  hasLongCursor_of_sequence rfl (le_jsonString_replicate 4096)

def longStore : StoredEvents Unit where
  rows := [longEvent "a", longEvent "b"]
  nodup := by decide

end ActiveTs.Outbox
