import ActiveTs.Outbox.Acknowledgement

/-! # The repair guard

A delivery that has started a search write may leave the search document wrong. If it does not
acknowledge its event, the repair event that it has appended stays in the outbox. -/

namespace ActiveTs.Outbox

variable {T D : Type} [DecidableEq T] [DecidableEq D] {t : T} {mode : StoreMode}

/-! ## The steps of a delivery -/

section
variable {Z : Change D → Prop} {cfg : SearchSync D}

omit [DecidableEq D] in
theorem makes_mayThrow : Makes t Z (mayThrow : OutboxTask T D Unit) fun _ => True := .read

omit [DecidableEq T] [DecidableEq D] in
theorem World.acceptSearch_same (s : World T D) (request : SearchRequest D) :
    Same s (s.acceptSearch request) := by
  unfold World.acceptSearch
  dsimp only
  split
  · exact .refl s
  · exact ⟨rfl, rfl, List.Subset.refl _⟩

omit [DecidableEq D] in
theorem makes_executeSearchSyncMutation (request : SearchRequest D) :
    Makes t Z (executeSearchSyncMutation request : OutboxTask T D Unit) fun _ => True := by
  refine .atomically fun c s => ⟨?_, fun _ _ => trivial⟩
  have haccept := ((s.advance c.tick).acceptSearch_same request)
  cases c.outcome with
  | ok => exact .of_advance (.inl haccept)
  | failed => exact .inl ⟨rfl, rfl, List.Subset.refl _⟩
  | uncertain => exact .of_advance (.inl haccept)
  | late => exact .inl ⟨rfl, rfl, List.Subset.refl _⟩

omit [DecidableEq D] in
theorem makes_resolveSearchSyncMutation (event : OutboxEvent D) (reconcileFromStore : Bool) :
    Makes t Z (resolveSearchSyncMutation cfg event reconcileFromStore : OutboxTask T D _)
      fun _ => True :=
  .ite (fun _ => .bind .read fun _ _ => .bind makes_mayThrow fun _ _ => .pure trivial)
    fun _ => .bind makes_mayThrow fun _ _ => .pure trivial

omit [DecidableEq D] in
theorem makes_nextRevision (identity : String) :
    Makes t Z (nextRevision mode identity : OutboxTask T D Nat) fun _ => True := by
  refine .bind .read fun found _ => ?_
  cases found with
  | none =>
    refine .bind makes_now fun now _ => .ite (fun _ => .throw _) fun _ =>
      .bind (V := fun _ => True) (.storeCall fun s => ⟨?_, fun _ _ => trivial⟩) fun _ _ => .pure trivial
    split
    · exact .inl (.refl s)
    · exact .inl ⟨rfl, rfl, List.Subset.refl _⟩
  | some current =>
    refine .ite (fun _ => .throw _) fun _ =>
      .bind (V := fun _ => True) (.storeCall fun s => ⟨?_, fun _ _ => trivial⟩) fun _ _ => .pure trivial
    split
    · exact .inl (.refl s)
    · split
      · exact .inl (.refl s)
      · exact .inl ⟨rfl, rfl, List.Subset.refl _⟩

theorem makes_reserveSearchRevision (identity : String) (event : OutboxEvent D) :
    Makes t Z (reserveSearchRevision mode identity event : OutboxTask T D _) fun _ => True := by
  have hholds : Makes t Z (holdsLease event : OutboxTask T D Bool) fun _ => True :=
    .bind (makes_currentOutboxEvent _) fun _ _ => .bind makes_now fun _ _ => .pure trivial
  have hrun : ∀ revalidate, Makes t Z
      (reserveRun mode identity event revalidate : OutboxTask T D _) fun _ => True := by
    intro revalidate
    refine .bind hholds fun _ _ => .ite (fun _ => .bind (makes_nextRevision _) fun _ _ => ?_)
      fun _ => .pure trivial
    exact .ite (fun _ => .bind hholds fun _ _ => .ite (fun _ => .pure trivial)
      fun _ => .pure trivial) fun _ => .pure trivial
  refine .ite (fun _ => .throw _) fun _ => .bind (V := fun _ => True) ?_ fun result _ => ?_
  · refine Makes.anyResult (.attempt (V := fun _ => True) ?_)
    exact .ite (fun _ => hrun true) fun _ => .ite (fun _ => (hrun false).transaction)
      fun _ => .throw _
  · cases result with
    | ok revision => exact .pure trivial
    | error e =>
      exact .ite (fun _ => .bind (makes_isLeaseCurrent _) fun _ _ => .ite (fun _ => .throw _)
        fun _ => .pure trivial) fun _ => .throw _

theorem makes_ensureSearchSyncLeaseCurrent (event : OutboxEvent D) :
    Makes t Change.IsUpdate (ensureSearchSyncLeaseCurrent cfg t event) fun _ => True := by
  refine .bind (makes_isLeaseCurrent _) fun _ _ => .ite (fun _ => .pure trivial) fun _ =>
    .bind (makes_release [event]).attempt.anyResult fun r _ => ?_
  cases r with
  | ok u => exact .pure trivial
  | error e => exact .throw _

theorem makes_renewRounds (rounds : Nat) (r : Renewals D) :
    Makes t Change.IsUpdate (renewRounds cfg t rounds r) fun r' =>
      r'.activeEvent.id = r.activeEvent.id := by
  induction rounds generalizing r with
  | zero => exact .pure rfl
  | succ rounds ih =>
    refine .ite (fun _ => .pure rfl) fun _ =>
      .bind (makes_renewLease r.activeEvent).attempt fun result hresult => ?_
    cases result with
    | error e => exact .pure rfl
    | ok renewed =>
      cases renewed with
      | none => exact .pure rfl
      | some renewed =>
        have hid := (hresult _ rfl renewed rfl).1
        exact .ite (fun _ => (ih _).weaken (fun _ h => h) fun _ h => h.trans hid)
          fun _ => .pure rfl

theorem makes_renewals (r : Renewals D) :
    Makes t Change.IsUpdate (renewals cfg t r) fun r' => r'.activeEvent.id = r.activeEvent.id :=
  .step (fun _ _ => ⟨rfl, rfl, List.Subset.refl _⟩) fun c _ => makes_renewRounds c.rounds r

theorem makes_runSearchSyncMutationWithLease (event : OutboxEvent D)
    {mutation : OutboxTask T D Unit} (h : Makes t Change.IsUpdate mutation fun _ => True) :
    Makes t Change.IsUpdate (runSearchSyncMutationWithLease cfg t event mutation) fun result =>
      result.event.id = event.id := by
  refine .bind (makes_renewals _) fun before hbefore => .bind h.attempt fun result _ =>
    .bind (makes_renewals _) fun after hafter => ?_
  have hid : after.activeEvent.id = event.id := hafter.trans hbefore
  cases result with
  | error e => exact .pure hid
  | ok u =>
    exact .ite (fun _ => .pure hid) fun _ =>
      .bind (makes_ensureSearchSyncLeaseCurrent _) fun _ _ => .pure hid

end

/-! ## The delivery of one event -/

/-- A delivery that started a search write and did not acknowledge its event has left its repair
event, or its acknowledgement could not put back what it had deleted. -/
def Guarded (mode : StoreMode) (t : T) (report : Report D) (g : T → List (Change D))
    (s : World T D) : Prop :=
  report.mutationStarted = true → ∃ repair, report.repair = some repair ∧
    (report.result = .processed ∨ report.result = .failed .rollbackFailed ∨
      AckLeft mode t report.event.id repair.id g s)

/-- The changes of the delivery of one event: updates, those of its acknowledgement, and those of
rows whose ids were not used before. -/
def OfDelivery (mode : StoreMode) (event : OutboxEvent D) (used : List String) (ch : Change D) :
    Prop :=
  ch.IsUpdate ∨ (ch.id = event.id ∧ (mode.recoverDeletes = true ∨ ch.after = none)) ∨ ch.id ∉ used

section
variable {cfg : SearchSync D} {event : OutboxEvent D} {used : List String}
  {A : (T → List (Change D)) → World T D → Prop}

/-- Locals in the middle of the delivery of an event. -/
structure Ready (event : OutboxEvent D) (used : List String) (l : Locals D) : Prop where
  id : l.event.id = event.id
  started : l.mutationStarted = true → l.preserveRepair = true ∧ l.repair.isSome = true
  fresh : ∀ repair, l.repair = some repair → repair.id ∉ used

/-- In the middle of a delivery the repair event is there. -/
def Midway (t : T) (used : List String) (A : (T → List (Change D)) → World T D → Prop)
    (l : Locals D) (g : T → List (Change D)) (s : World T D) : Prop :=
  (A g s ∧ used ⊆ s.usedIds) ∧ ∀ repair, l.repair = some repair →
    repair.id ∈ s.usedIds ∧ presence repair.id (g t) = some true

/-- The end of a delivery. -/
structure Ended (mode : StoreMode) (t : T) (event : OutboxEvent D) (used : List String)
    (A : (T → List (Change D)) → World T D → Prop) (report : Report D)
    (g : T → List (Change D)) (s : World T D) : Prop where
  kept : A g s ∧ used ⊆ s.usedIds
  id : report.event.id = event.id
  fresh : ∀ repair, report.repair = some repair → repair.id ∉ used ∧ repair.id ∈ s.usedIds
  guarded : Guarded mode t report g s

omit [DecidableEq D] in
theorem respects_midway {Z : Change D → Prop} (l : Locals D) (hA : Respects t Z A)
    (hZ : ∀ ch, Z ch → ch.IsUpdate) : Respects t Z (Midway t used A l) :=
  (hA.and (.kept (kept_used used))).and (.all fun _ => .all fun _ =>
    (Respects.kept fun _ _ _ _ h he => he.usedIds h).and
      (.presence _ _ fun ch hch => .inl (hZ ch hch)))

omit [DecidableEq T] [DecidableEq D] in
/-- A delivery may end anywhere: the repair event is there. -/
theorem Ready.ended {l : Locals D} (hl : Ready event used l) {g : T → List (Change D)}
    {s : World T D} (h : Midway t used A l g s) (result : DeliveryEnd) :
    Ended mode t event used A ⟨l, result⟩ g s where
  kept := h.1
  id := hl.id
  fresh repair hrepair := ⟨hl.fresh repair hrepair, (h.2 repair hrepair).1⟩
  guarded hstarted := by
    obtain ⟨repair, hrepair⟩ := Option.isSome_iff_exists.mp (hl.started hstarted).2
    exact ⟨repair, hrepair, .inr (.inr (.inl (.inl (h.2 repair hrepair).2)))⟩

/-- With its repair event preserved, a delivery stops at once. -/
theorem triple_stopPreserved {l : Locals D} (e : OutboxError) (hpreserve : l.preserveRepair = true)
    {P : (T → List (Change D)) → World T D → Prop}
    (h : ∀ g s, P g s → Ended cfg.mode t event used A ⟨l, .failed e⟩ g s) :
    Triple t P (stop cfg t l e) (Ended cfg.mode t event used A) fun _ _ _ => False := by
  unfold stop
  split
  · exact .pure fun g s _ hP => h g s hP
  · exact .ite (fun _ => .pure fun g s _ hP => h g s hP) fun hnot => absurd hpreserve hnot

variable (hA : Respects t (OfDelivery cfg.mode event used) A)
include hA

theorem triple_stop {l : Locals D} (hl : Ready event used l) (e : OutboxError) :
    Triple t (Midway t used A l) (stop cfg t l e) (Ended cfg.mode t event used A)
      fun _ _ _ => False := by
  unfold stop
  split
  · exact .pure fun _ _ _ h => hl.ended h _
  · next repair hrepair =>
    refine .ite (fun _ => .pure fun _ _ _ h => hl.ended h _) fun hpreserve => ?_
    have hcleanup : Respects t (OfAck cfg.mode.recoverDeletes [repair]) fun g s =>
        (A g s ∧ used ⊆ s.usedIds) ∧ repair.id ∈ s.usedIds := by
      refine ((hA.mono fun ch hch => .inr (.inr ?_)).and (.kept (kept_used used))).and
        (.kept fun _ _ _ _ h he => he.usedIds h)
      obtain ⟨e, he, hid⟩ := hch.1
      cases List.mem_singleton.mp he
      rw [hid]
      exact hl.fresh repair hrepair
    refine .bind ((Protocol.Triple.attempt (makes_ack [repair] _ hcleanup)).pre
      fun _ _ _ h => ⟨h.1, (h.2 repair hrepair).1⟩) fun r => .pure fun g s _ h => ?_
    have h : (A g s ∧ used ⊆ s.usedIds) ∧ repair.id ∈ s.usedIds := by
      cases r with
      | ok acknowledged => exact h.1
      | error e => exact h
    refine ⟨h.1, hl.id, fun r hr => ?_, fun hstarted => absurd (hl.started hstarted).1 hpreserve⟩
    obtain rfl : repair = r := Option.some.inj (hrepair.symm.trans hr)
    exact ⟨hl.fresh repair hrepair, h.2⟩

theorem triple_awaiting {α : Type} {l : Locals D} (hl : Ready event used l)
    {p : OutboxTask T D α} {V : α → Prop} (hp : Makes t Change.IsUpdate p V)
    {next : α → OutboxTask T D (Report D)}
    (hnext : ∀ a, V a → Triple t (Midway t used A l) (next a) (Ended cfg.mode t event used A)
      fun _ _ _ => False) :
    Triple t (Midway t used A l) (awaiting cfg t l p next) (Ended cfg.mode t event used A)
      fun _ _ _ => False := by
  have hmidway : Respects t Change.IsUpdate (Midway t used A l) :=
    respects_midway l (hA.mono fun _ h => .inl h) fun _ h => h
  refine .bind (Protocol.Triple.attempt (hp _ hmidway)) fun r => ?_
  cases r with
  | ok a => exact fun g s hinv h => hnext a h.2 g s hinv h.1
  | error e => exact triple_stop hA hl e

theorem triple_whileCurrent {l : Locals D} (hl : Ready event used l)
    {next : OutboxTask T D (Report D)}
    (hnext : Triple t (Midway t used A l) next (Ended cfg.mode t event used A)
      fun _ _ _ => False) :
    Triple t (Midway t used A l) (whileCurrent cfg t l next) (Ended cfg.mode t event used A)
      fun _ _ _ => False :=
  triple_awaiting hA hl (makes_ensureSearchSyncLeaseCurrent l.event) fun _ _ =>
    .ite (fun _ => hnext) fun _ => .pure fun _ _ _ h => hl.ended h _

theorem triple_acknowledge (hevent : event.id ∈ used) {l : Locals D} (hl : Ready event used l) :
    Triple t (Midway t used A l) (acknowledge cfg t l) (Ended cfg.mode t event used A)
      fun _ _ _ => False := by
  have hsource : ∀ ch : Change D, ch.id = l.event.id →
      (cfg.mode.recoverDeletes = true ∨ ch.after = none) → OfDelivery cfg.mode event used ch :=
    fun ch hid h => .inr (.inl ⟨hid.trans hl.id, h⟩)
  unfold acknowledge
  cases hrepair : l.repair with
  | none =>
    have hnot : l.mutationStarted ≠ true := fun h => by
      have hsome := (hl.started h).2
      rw [hrepair] at hsome
      cases hsome
    have hended : ∀ (l' : Locals D) result g s, l'.event = l.event → l'.repair = none →
        l'.mutationStarted = l.mutationStarted → A g s ∧ used ⊆ s.usedIds →
        Ended cfg.mode t event used A ⟨l', result⟩ g s := by
      intro l' result g s hid hnone hstarted h
      refine ⟨h, (congrArg OutboxEvent.id hid).trans hl.id, fun r hr => ?_, fun h => ?_⟩
      · rw [hnone] at hr
        cases hr
      · exact absurd (hstarted ▸ h) hnot
    have hack : Respects t (OfAck cfg.mode.recoverDeletes [l.event]) fun g s =>
        A g s ∧ used ⊆ s.usedIds := by
      refine (hA.mono fun ch hch => ?_).and (.kept (kept_used used))
      obtain ⟨e, he, hid⟩ := hch.1
      cases List.mem_singleton.mp he
      exact hsource ch hid hch.2
    refine .bind ((Protocol.Triple.attempt (makes_ack [l.event] _ hack)).pre
      fun _ _ _ h => h.1) fun r => ?_
    cases r with
    | ok acknowledged =>
      cases acknowledged with
      | true => exact .pure fun g s _ h => hended l _ g s rfl hrepair rfl h.1
      | false => exact .pure fun g s _ h => hended _ _ g s rfl rfl rfl h.1
    | error e =>
      exact triple_stopPreserved e rfl fun g s h => hended _ _ g s rfl rfl rfl h
  | some repair =>
    have hfresh := hl.fresh repair hrepair
    have hended : ∀ (l' : Locals D) result g s, l'.event = l.event → l'.repair = some repair →
        (A g s ∧ used ⊆ s.usedIds) ∧ repair.id ∈ s.usedIds →
        (result = .processed ∨ result = .failed .rollbackFailed ∨
          AckLeft cfg.mode t l.event.id repair.id g s) →
        Ended cfg.mode t event used A ⟨l', result⟩ g s := by
      intro l' result g s hid hsome h hresult
      refine ⟨h.1, (congrArg OutboxEvent.id hid).trans hl.id, fun r hr => ?_, fun _ =>
        ⟨repair, hsome, ?_⟩⟩
      · obtain rfl : repair = r := Option.some.inj (hsome.symm.trans hr)
        exact ⟨hfresh, h.2⟩
      · change _ ∨ _ ∨ AckLeft cfg.mode t l'.event.id repair.id g s
        rw [hid]
        exact hresult
    have hack : Respects t (OfAck cfg.mode.recoverDeletes [l.event, repair]) fun g s =>
        (A g s ∧ used ⊆ s.usedIds) ∧ repair.id ∈ s.usedIds := by
      refine ((hA.mono fun ch hch => ?_).and (.kept (kept_used used))).and
        (.kept fun _ _ _ _ h he => he.usedIds h)
      obtain ⟨e, he, hid⟩ := hch.1
      rcases List.mem_cons.mp he with rfl | he
      · exact hsource ch hid hch.2
      · cases List.mem_singleton.mp he
        exact .inr (.inr (hid ▸ hfresh))
    have hne : repair.id ≠ l.event.id := fun h => hfresh (h ▸ hl.id ▸ hevent)
    refine .bind ((triple_ack l.event repair hne hack).attempt.pre
      fun _ _ _ h => ⟨⟨h.1, (h.2 repair hrepair).1⟩, (h.2 repair hrepair).2⟩) fun r => ?_
    cases r with
    | ok acknowledged =>
      cases acknowledged with
      | true => exact .pure fun g s _ h => hended l _ g s rfl hrepair h.1 (.inl rfl)
      | false => exact .pure fun g s _ h => hended _ _ g s rfl rfl h.1 (.inr (.inr (h.2 rfl)))
    | error e =>
      refine triple_stopPreserved e rfl fun g s h => hended _ _ g s rfl rfl h.1 ?_
      by_cases he : e = .rollbackFailed
      · exact .inr (.inl (he ▸ rfl))
      · exact .inr (.inr (h.2 he))

theorem triple_deliverRoutes (hevent : event.id ∈ used) (searchRevision : Option Nat)
    (mutation : SearchSyncMutation D) (routes : List Route) {l : Locals D}
    (hl : Ready event used l) (hrepair : l.repair.isSome = true) :
    Triple t (Midway t used A l) (deliverRoutes cfg t searchRevision mutation routes l)
      (Ended cfg.mode t event used A) fun _ _ _ => False := by
  induction routes generalizing l with
  | nil => exact triple_acknowledge hA hevent hl
  | cons route rest ih =>
    refine triple_whileCurrent hA hl <| triple_awaiting hA hl makes_mayThrow fun _ _ =>
      triple_whileCurrent hA hl ?_
    have hstarted : Ready event used { l with preserveRepair := true, mutationStarted := true } :=
      ⟨hl.id, fun _ => ⟨rfl, hrepair⟩, hl.fresh⟩
    refine triple_awaiting hA hstarted (makes_runSearchSyncMutationWithLease l.event
      (makes_executeSearchSyncMutation _)) fun result hid => ?_
    -- From here on the event carries its last renewal.
    have hl' : Ready event used
        { l with preserveRepair := true, mutationStarted := true, event := result.event } :=
      ⟨hid.trans hl.id, hstarted.started, hl.fresh⟩
    dsimp only
    split
    · exact triple_stop hA hl' _
    · refine .ite (fun _ => triple_awaiting hA hl' makes_mayThrow fun _ _ =>
        triple_whileCurrent hA hl' (ih hl' hrepair)) fun _ => ?_
      have hlost : Triple t (Midway t used A
          { l with preserveRepair := true, mutationStarted := true, event := result.event })
          (return ⟨
            { l with preserveRepair := true, mutationStarted := true, event := result.event }, .lost⟩)
          (Ended cfg.mode t event used A) fun _ _ _ => False :=
        .pure fun _ _ _ h => hl'.ended h _
      split
      · refine triple_awaiting hA hl' (makes_resolveSearchSyncMutation _ _) fun _ _ =>
          triple_awaiting hA hl' (makes_executeSearchSyncMutation _) fun _ _ => ?_
        split
        · exact triple_stop hA hl' _
        · exact hlost
      · split
        · exact triple_stop hA hl' _
        · exact hlost

omit [DecidableEq D] in
theorem triple_enqueueSearchSyncRepair :
    Triple t (fun g s => A g s ∧ used ⊆ s.usedIds) (enqueueSearchSyncRepair t event)
      (fun repair g s => ((A g s ∧ used ⊆ s.usedIds) ∧ repair.id ∈ s.usedIds ∧
        presence repair.id (g t) = some true) ∧ repair.id ∉ used)
      fun _ g s => A g s ∧ used ⊆ s.usedIds := by
  have hid : Triple t (fun g s => A g s ∧ used ⊆ s.usedIds) randomUUID
      (fun id g s => ((A g s ∧ used ⊆ s.usedIds) ∧ id ∈ s.usedIds) ∧ id ∉ used)
      fun _ g s => A g s ∧ used ⊆ s.usedIds := by
    have hkept : ∀ id, protocol.Stable t fun g s =>
        ((A g s ∧ used ⊆ s.usedIds) ∧ id ∈ s.usedIds) ∧ id ∉ used := fun id =>
      ((hA.stable.and (kept_used used).stable).and
        (Protocol.Kept.stable fun _ _ _ _ h he => he.usedIds h)).and (Protocol.Kept.const _).stable
    refine .step _ (fun c g s hinv h hen _ => ?_) (fun c => hkept c.uuid)
      fun c _ => .pure fun _ _ _ h => h
    have hfresh : c.uuid ∉ s.usedIds := of_decide_eq_true hen
    have hmoves : protocol.Moves t g s g
        { s.advance c.tick with usedIds := c.uuid :: s.usedIds } :=
      moves_same hinv ⟨rfl, rfl, List.subset_cons_self _ _⟩
    refine ⟨g, hmoves, ⟨⟨hA.step h.1 hmoves (.inl rfl), ?_⟩, List.mem_cons_self⟩, fun hmem => ?_⟩
    · exact List.Subset.trans h.2 (List.subset_cons_self _ _)
    · exact hfresh (h.2 hmem)
  refine .bind hid fun id => ?_
  intro g s hinv h
  have hfresh := h.2
  have hP : Respects t (fun ch : Change D => ch.id = id) fun g s =>
      (A g s ∧ used ⊆ s.usedIds) ∧ id ∈ s.usedIds :=
    ((hA.mono fun ch (hch : ch.id = id) => .inr (.inr (hch ▸ hfresh))).and
      (.kept (kept_used used))).and (.kept fun _ _ _ _ h he => he.usedIds h)
  have hsequence : Makes t (fun ch : Change D => ch.id = id)
      (.atomically fun c s => (s, .ok c.uuid) : OutboxTask T D String) fun _ => True :=
    .atomically fun _ s => ⟨.inl (.refl s), fun _ _ => trivial⟩
  refine Protocol.Triple.bind ((hsequence _ hP).weaken (fun _ _ _ h => h) (fun _ _ _ _ h => h)
    fun _ _ _ _ h => h.1) (fun sequence => ?_) g s hinv h.1
  refine .bind ((triple_append _ (hP.mono fun ch hch => by rw [hch])).weaken
    (fun _ _ _ h => h.1) (fun _ _ _ _ h => h) fun _ _ _ _ h => h.1) fun _ => ?_
  exact .pure fun _ _ _ h => ⟨⟨h.1.1, h.1.2, h.2⟩, hfresh⟩

theorem triple_deliver (hevent : event.id ∈ used) :
    Triple t (fun g s => A g s ∧ used ⊆ s.usedIds) (deliver cfg t event)
      (Ended cfg.mode t event used A) fun _ _ _ => False := by
  have hl : Ready event used ⟨event, none, false, false⟩ := by
    refine ⟨rfl, fun h => ?_, fun _ h => ?_⟩ <;> cases h
  have hbegin : ∀ g s, A g s ∧ used ⊆ s.usedIds →
      Midway t used A ⟨event, none, false, false⟩ g s := by
    refine fun _ _ h => ⟨h, fun _ h => ?_⟩
    cases h
  refine Protocol.Triple.pre (triple_whileCurrent hA hl ?_) fun g s _ h => hbegin g s h
  split
  · exact triple_stop hA hl _
  · next routes _ =>
    refine triple_awaiting hA hl (makes_reserveSearchRevision _ event) fun reserved _ => ?_
    split
    · exact triple_whileCurrent hA hl (triple_stop hA hl _)
    · next revision =>
      refine triple_awaiting hA hl (makes_resolveSearchSyncMutation event _) fun mutation _ =>
        .ite (fun _ => triple_stop hA hl _) fun _ => .ite (fun _ => triple_acknowledge hA hevent hl)
          fun hroutes => ?_
      refine .bind ((triple_enqueueSearchSyncRepair hA).attempt.pre fun _ _ _ h => h.1) fun r => ?_
      cases r with
      | ok repair =>
        intro g s hinv h
        have hfresh : repair.id ∉ used := h.2
        have hrepair : Ready event used ⟨event, some repair, false, false⟩ := by
          refine ⟨rfl, fun h => ?_, fun r hr => ?_⟩
          · cases h
          · cases hr
            exact hfresh
        refine triple_deliverRoutes hA hevent _ mutation routes hrepair rfl g s hinv ⟨h.1.1, ?_⟩
        intro r hr
        cases hr
        exact h.1.2
      | error e => exact (triple_stop hA hl e).pre fun g s _ h => hbegin g s h

end

/-! ## The batch -/

section
variable {documentIdentity : String → Option String → EntityId → Option DatastoreKey → String}

/-- The ids of the events are used. -/
def UsedEvents (events : List (OutboxEvent D)) (_ : T → List (Change D)) (s : World T D) : Prop :=
  ∀ event ∈ events, event.id ∈ s.usedIds

/-- Events that are under a lease. -/
def LeasedEvents (events : List (OutboxEvent D)) : Prop :=
  ∀ event ∈ events, event.leaseToken.isSome = true

omit [DecidableEq D] in
theorem kept_usedEvents (events : List (OutboxEvent D)) :
    (protocol (T := T)).Kept (UsedEvents events) :=
  fun _ _ _ _ h he event hevent => he.usedIds (h event hevent)

omit [DecidableEq T] [DecidableEq D] in
theorem UsedEvents.concat {events : List (OutboxEvent D)} {event : OutboxEvent D}
    {g : T → List (Change D)} {s : World T D} (h : UsedEvents events g s)
    (hevent : event.id ∈ s.usedIds) : UsedEvents (events ++ [event]) g s := by
  intro e he
  rcases List.mem_append.mp he with he | he
  · exact h e he
  · cases List.mem_singleton.mp he
    exact hevent

omit [DecidableEq D] in
theorem LeasedEvents.concat {events : List (OutboxEvent D)} {event : OutboxEvent D}
    (h : LeasedEvents events) (hevent : event.leaseToken.isSome = true) :
    LeasedEvents (events ++ [event]) := by
  intro e he
  rcases List.mem_append.mp he with he | he
  · exact h e he
  · cases List.mem_singleton.mp he
    exact hevent

theorem triple_claimPage (limit : Option Nat) (token : String) (expiresAt now : Nat)
    (page : List (OutboxEvent D)) (blocked : List String) (leased : List (OutboxEvent D))
    (hleased : LeasedEvents leased) :
    Triple t (fun g s => UsedEvents leased g s ∧ UsedEvents page g s)
      (claimPage mode t documentIdentity limit token expiresAt now page blocked leased)
      (fun r g s => UsedEvents r.2 g s ∧ LeasedEvents r.2) fun _ _ _ => True := by
  induction page generalizing blocked leased with
  | nil => exact .pure fun _ _ _ h => ⟨h.1, hleased⟩
  | cons event rest ih =>
    have hrest : ∀ blocked, Triple t (fun g s => UsedEvents leased g s ∧ UsedEvents (event :: rest) g s)
        (claimPage mode t documentIdentity limit token expiresAt now rest blocked leased)
        (fun r g s => UsedEvents r.2 g s ∧ LeasedEvents r.2) fun _ _ _ => True := fun blocked =>
      (ih blocked leased hleased).pre fun _ _ _ h =>
        ⟨h.1, fun e he => h.2 e (List.mem_cons_of_mem _ he)⟩
    have hkept : ∀ {Z : Change D → Prop}, Respects t Z fun g s =>
        UsedEvents leased g s ∧ UsedEvents (event :: rest) g s :=
      .kept ((kept_usedEvents _).and (kept_usedEvents _))
    refine .ite (fun _ => .pure fun _ _ _ h => ⟨h.1, hleased⟩) fun _ => .ite (fun _ => hrest _)
      fun _ => .ite (fun _ => hrest _) fun _ => ?_
    refine .bind (Protocol.Triple.attempt
      (makes_claimOutboxLease event token expiresAt now _ hkept)) fun r => ?_
    cases r with
    | ok claim =>
      obtain ⟨current, claimed⟩ := claim
      cases claimed with
      | none => exact (hrest _).pre fun _ _ _ h => h.1
      | some claimed =>
        intro g s hinv h
        obtain ⟨hid, htoken⟩ := h.2 claimed rfl
        have hused : claimed.id ∈ s.usedIds := hid ▸ h.1.2 event List.mem_cons_self
        exact ih _ _ (hleased.concat htoken) g s hinv
          ⟨h.1.1.concat hused, fun e he => h.1.2 e (List.mem_cons_of_mem _ he)⟩
    | error e =>
      refine .ite (fun _ => ?_) fun _ => ?_
      · exact .bind ((makes_currentOutboxEvent event.id _ (hkept (Z := fun _ => True))).weaken
          (fun _ _ _ h => h) (fun _ _ _ _ h => h.1) fun _ _ _ _ _ => trivial) fun _ => hrest _
      · exact .bind ((makes_release _ _ hkept).weaken (fun _ _ _ h => h) (fun _ _ _ _ h => h.1)
          fun _ _ _ _ _ => trivial) fun _ => .throw fun _ _ _ _ => trivial

theorem triple_leasePages (limit : Option Nat) (token : String) (expiresAt now pages : Nat)
    (blocked : List String) (leased : List (OutboxEvent D)) (hleased : LeasedEvents leased) :
    Triple t (UsedEvents leased)
      (leasePages mode t documentIdentity limit token expiresAt now pages blocked leased)
      (fun events g s => UsedEvents events g s ∧ LeasedEvents events) fun _ _ _ => True := by
  induction pages generalizing blocked leased with
  | zero => exact .pure fun _ _ _ h => ⟨h, hleased⟩
  | succ pages ih =>
    have hpage : Triple t (UsedEvents leased) listPage
        (fun page g s => UsedEvents leased g s ∧ UsedEvents page g s) fun _ _ _ => True := by
      refine .atomically (fun c g s hinv h _ => ?_)
        (fun page => ((kept_usedEvents _).and (kept_usedEvents page)).stable)
        fun _ => (Protocol.Kept.const _).stable
      have hadvance := moves_advance (t := t) hinv c.tick
      cases c.outcome with
      | ok =>
        refine ⟨g, hadvance, fun page hpage => ?_, fun _ _ => trivial⟩
        cases hpage
        refine ⟨h, fun event hevent => hinv.used event.id ?_⟩
        rw [of_decide_eq_true (List.mem_filter.mp hevent).2]
        rfl
      | failed => exact ⟨g, hadvance, fun _ h => (nomatch h), fun _ _ => trivial⟩
      | uncertain => exact ⟨g, hadvance, fun _ h => (nomatch h), fun _ _ => trivial⟩
      | late => exact ⟨g, hadvance, fun _ h => (nomatch h), fun _ _ => trivial⟩
    refine .bind hpage fun page => .bind
      (triple_claimPage limit token expiresAt now page blocked leased hleased) fun r => ?_
    exact fun g s hinv h => ih r.1 r.2 h.2 g s hinv h.1

theorem triple_lease (limit : Option Nat) :
    Triple t (fun _ _ => True) (lease mode t documentIdentity limit : OutboxTask T D _)
      (fun events g s => UsedEvents events g s ∧ LeasedEvents events) fun _ _ _ => True := by
  have hnow : Triple t (fun _ _ => True) (now : OutboxTask T D Nat) (fun _ _ _ => True)
      fun _ _ _ => True :=
    (makes_now (Z := fun _ : Change D => False) _ (.const True)).weaken (fun _ _ _ h => h)
      (fun _ _ _ _ _ => trivial) fun _ _ _ _ h => h
  have hid : Triple t (fun _ _ => True) (randomUUID : OutboxTask T D String) (fun _ _ _ => True)
      fun _ _ _ => True :=
    .step (fun _ _ _ => True) (fun c g s hinv _ _ _ => ⟨g, moves_same hinv
      ⟨rfl, rfl, List.subset_cons_self _ _⟩, trivial⟩) (fun _ => (Protocol.Kept.const _).stable)
      fun _ _ => .pure fun _ _ _ h => h
  refine .bind hnow fun now => .bind hid fun token => ?_
  refine .step (fun _ => UsedEvents []) (fun c g s hinv _ _ _ => ⟨g, moves_advance hinv c.tick,
    fun _ h => (nomatch h)⟩) (fun _ => (kept_usedEvents _).stable) fun c s => ?_
  exact triple_leasePages limit token _ now c.rounds [] [] fun _ h => (nomatch h)

end

/-! ## The event loop -/

section
variable {cfg : SearchSync D} {batch : List (OutboxEvent D)}

/-- The failures and deferred events come from the batch. -/
structure FromBatch (batch : List (OutboxEvent D)) (s : LoopState D) : Prop where
  deferred : ∀ pending ∈ s.deferred, ∃ event ∈ batch, pending.value = .event event
  values : ∀ failure ∈ s.deliveryFailures, ∃ event ∈ batch, failure.value = .event event
  events : ∀ failure ∈ s.deliveryFailures, ∀ event, failure.event = some event →
    event.leaseToken.isSome = true ∧ ∃ source ∈ batch, event.id = source.id

omit [DecidableEq D] in
theorem OutboxEvent.renew_lease (event : OutboxEvent D) (renewal : Option Renewal) :
    (event.renew renewal).id = event.id ∧
      (event.renew renewal).leaseToken = event.leaseToken := by
  cases renewal <;> exact ⟨rfl, rfl⟩

omit [DecidableEq D] in
theorem FromBatch.visit {s : LoopState D} (h : FromBatch batch s) {event : OutboxEvent D}
    (hevent : event ∈ batch) (hleased : event.leaseToken.isSome = true) (env : Environment D)
    (index : Nat) :
    FromBatch batch (visit cfg.documentIdentity env s index (.event event)) := by
  have hdefer : FromBatch batch (s.defer index (.event event)) := by
    refine ⟨fun pending hp => ?_, h.values, h.events⟩
    rcases List.mem_append.mp hp with hp | hp
    · exact h.deferred pending hp
    · cases List.mem_singleton.mp hp
      exact ⟨event, hevent, rfl⟩
  have hfail : ∀ (failed : Option (OutboxEvent D)) (error : WorkerError) (keys : List String),
      (∀ e, failed = some e → e.leaseToken.isSome = true ∧ ∃ source ∈ batch, e.id = source.id) →
      FromBatch batch ((s.fail index (.event event) failed error).block keys) := by
    intro failed error keys hfailed
    have hmem : ∀ failure ∈ (s.fail index (.event event) failed error).deliveryFailures,
        failure ∈ s.deliveryFailures ∨
          failure.value = .event event ∧ failure.event = failed := by
      intro failure hf
      unfold LoopState.fail at hf
      dsimp only at hf
      split at hf
      · exact .inl hf
      · rcases List.mem_append.mp hf with hf | hf
        · exact .inl hf
        · cases List.mem_singleton.mp hf
          exact .inr ⟨rfl, rfl⟩
    refine ⟨h.deferred, fun failure hf => ?_, fun failure hf e he => ?_⟩
    · rcases hmem failure hf with hf | ⟨hvalue, -⟩
      · exact h.values failure hf
      · exact ⟨event, hevent, hvalue⟩
    · rcases hmem failure hf with hf | ⟨-, hfailure⟩
      · exact h.events failure hf e he
      · exact hfailed e (hfailure.symm.trans he)
  unfold Outbox.visit
  dsimp only
  split
  · exact hdefer
  · split
    · exact hfail none _ _ fun _ he => (nomatch he)
    · next sanitized hsanitized =>
      obtain ⟨hraw, -⟩ := RawEntry.sanitize_ok hsanitized
      cases hraw
      split
      · exact hdefer
      · split
        · exact ⟨h.deferred, h.values, h.events⟩
        · exact ⟨h.deferred, h.values, h.events⟩
        · refine hfail _ _ _ fun e he => ?_
          cases he
          obtain ⟨hid, htoken⟩ := event.renew_lease (env.deliver index event).renewal
          exact ⟨htoken ▸ hleased, event, hevent, hid⟩

/-- The reports so far: every repair event is new, and guards its event. -/
def Reported (mode : StoreMode) (t : T) (batch : List (OutboxEvent D)) (reports : List (Report D))
    (g : T → List (Change D)) (s : World T D) : Prop :=
  UsedEvents batch g s ∧ ∀ report ∈ reports, Guarded mode t report g s ∧
    report.event.id ∈ s.usedIds ∧ ∀ repair, report.repair = some repair →
      repair.id ∈ s.usedIds ∧ ∀ event ∈ batch, repair.id ≠ event.id

omit [DecidableEq D] in
/-- A guarded event stays guarded under changes that spare its repair event and do not put it
back. -/
theorem respects_guarded {Z : Change D → Prop} (mode : StoreMode) (report : Report D)
    (hrepair : ∀ repair, report.repair = some repair →
      ∀ ch, Z ch → ch.IsUpdate ∨ ch.id ≠ repair.id)
    (hsource : mode.recoverDeletes = false →
      ∀ ch, Z ch → ch.IsUpdate ∨ ch.after = none ∨ ch.id ≠ report.event.id) :
    Respects t Z (Guarded mode t report) := by
  have hleft : ∀ repair, report.repair = some repair →
      Respects t Z (AckLeft mode t report.event.id repair.id) := by
    intro repair hr
    refine (respects_held _ (hrepair repair hr)).or ?_
    by_cases hmode : mode.recoverDeletes = false
    · exact (Respects.const _).and (.presence_false _ (hsource hmode))
    · exact ⟨fun _ _ _ _ _ h _ => absurd h.1 hmode, fun h _ _ => absurd h.1 hmode⟩
  refine ⟨fun g s g' s' hinv h hr hstarted => ?_, fun h hmoves hl hstarted => ?_⟩
  · obtain ⟨repair, hrepair', hresult⟩ := h hstarted
    exact ⟨repair, hrepair', hresult.imp_right fun h => h.imp_right fun h =>
      (hleft repair hrepair').stable g s g' s' hinv h hr⟩
  · obtain ⟨repair, hrepair', hresult⟩ := h hstarted
    exact ⟨repair, hrepair', hresult.imp_right fun h => h.imp_right fun h =>
      (hleft repair hrepair').step h hmoves hl⟩

theorem triple_searchSyncLoop (hleased : LeasedEvents batch) (rest : List (OutboxEvent D))
    (hrest : rest ⊆ batch) (index : Nat) (s : LoopState D) (hs : FromBatch batch s)
    (reports : List (Report D)) :
    Triple t (Reported cfg.mode t batch reports) (searchSyncLoop cfg t index s reports rest)
      (fun r g s => Reported cfg.mode t batch r.2 g s ∧ FromBatch batch r.1) fun _ _ _ => True := by
  induction rest generalizing index s reports with
  | nil => exact .pure fun _ _ _ h => ⟨h, hs⟩
  | cons event rest ih =>
    obtain ⟨hevent, hrest⟩ := List.cons_subset.mp hrest
    refine .ite (fun _ => ?_) fun _ => ih hrest _ _ (hs.visit hevent (hleased event hevent) _ _) _
    intro g₀ s₀ hinv h₀
    -- The ids used so far include those of the batch and of the repair events.
    have hA : Respects t (OfDelivery cfg.mode event s₀.usedIds) fun g s =>
        ∀ report, report ∈ reports → Guarded cfg.mode t report g s := by
      refine .all fun report => .imp fun hmem => ?_
      obtain ⟨-, hsource, hrepair⟩ := h₀.2 report hmem
      refine respects_guarded _ _ (fun repair hr ch hch => ?_) fun hmode ch hch => ?_
      · obtain ⟨hused, hne⟩ := hrepair repair hr
        rcases hch with hch | ⟨hid, -⟩ | hch
        · exact .inl hch
        · exact .inr (hid ▸ (hne event hevent).symm)
        · exact .inr fun hid => hch (hid ▸ hused)
      · rcases hch with hch | ⟨-, hch⟩ | hch
        · exact .inl hch
        · exact .inr (.inl (hch.resolve_left (by simp [hmode])))
        · exact .inr (.inr fun hid => hch (hid ▸ hsource))
    refine Protocol.Triple.bind ((triple_deliver hA (h₀.1 event hevent)).weaken (fun _ _ _ h => h)
      (fun _ _ _ _ h => h) fun _ _ _ _ h => h.elim) (fun report => ?_) g₀ s₀ hinv ⟨fun report hmem => (h₀.2 report hmem).1, List.Subset.refl _⟩
    refine (ih hrest _ _ (hs.visit hevent (hleased event hevent) _ _) _).pre fun g s _ h => ?_
    obtain ⟨hguarded, hused⟩ := h.kept
    refine ⟨fun e he => hused (h₀.1 e he), fun r hr => ?_⟩
    rcases List.mem_append.mp hr with hr | hr
    · obtain ⟨-, hsource, hrepair⟩ := h₀.2 r hr
      exact ⟨hguarded r hr, hused hsource, fun repair hr' =>
        ⟨hused (hrepair repair hr').1, (hrepair repair hr').2⟩⟩
    · cases List.mem_singleton.mp hr
      refine ⟨h.guarded, ?_, fun repair hr' => ?_⟩
      · rw [h.id]
        exact hused (h₀.1 event hevent)
      · obtain ⟨hfresh, hmem⟩ := h.fresh repair hr'
        exact ⟨hmem, fun e he hid => hfresh (hid ▸ h₀.1 e he)⟩

/-! ## Settlement -/

/-- The changes of the settlement of a leased batch. -/
def OfSettlement (mode : StoreMode) (batch : List (OutboxEvent D)) (ch : Change D) : Prop :=
  ch.IsUpdate ∨ OfAck mode.recoverDeletes batch ch

omit [DecidableEq D] in
theorem mem_splitFailures (opts : WorkerOptions) (env : Environment D)
    (failures : List (PendingFailure D)) :
    (∀ entry, entry ∈ (splitFailures opts env failures).retries ∨
        entry ∈ (splitFailures opts env failures).deadLetters →
      entry.1 ∈ failures ∧ entry.2.event = entry.1.event) := by
  have hsplit := splitFailures_sound opts env failures
  rintro entry (h | h)
  · obtain ⟨hmem, hcreate, -⟩ := hsplit.retries entry h
    exact ⟨hmem, (createSearchSyncDeliveryFailure_eq_some hcreate).1⟩
  · obtain ⟨hmem, hcreate, -⟩ := hsplit.deadLetters entry h
    exact ⟨hmem, (createSearchSyncDeliveryFailure_eq_some hcreate).1⟩

/-- Failures of the batch, with the events that they are about. -/
def OfFailures (s : LoopState D) (entries : List (PendingFailure D × DeliveryFailure D)) : Prop :=
  ∀ entry ∈ entries, entry.1 ∈ s.deliveryFailures ∧ entry.2.event = entry.1.event

theorem makes_settleBatch {s : LoopState D} (hs : FromBatch batch s) (disposition : Disposition)
    {entries : List (PendingFailure D × DeliveryFailure D)} (h : OfFailures s entries) :
    Makes t (OfSettlement cfg.mode batch)
      (settleDeliveryFailures cfg.mode t disposition (entries.map (·.2))) fun _ => True := by
  refine (makes_settleDeliveryFailures _ _).weaken (fun ch hch => .inl ?_) fun _ h => h
  refine hch.resolve_right ?_
  rintro ⟨failure, hfailure, event, hevent, hunleased⟩
  obtain ⟨entry, hentry, rfl⟩ := List.mem_map.mp hfailure
  obtain ⟨hmem, hsame⟩ := h entry hentry
  have hleased := (hs.events entry.1 hmem event (hsame.symm.trans hevent)).1
  rw [hunleased] at hleased
  cases hleased

theorem makes_settleDeadLetters {s : LoopState D} (hs : FromBatch batch s)
    {entries : List (PendingFailure D × DeliveryFailure D)} (h : OfFailures s entries) :
    Makes t (OfSettlement cfg.mode batch) (settleDeadLetters cfg t entries) fun _ => True := by
  refine .ite (fun _ => .pure trivial) fun _ => .bind (V := fun _ => True) ?_ fun _ _ =>
    .pure trivial
  refine Makes.anyResult (.attempt (V := fun _ => True) (.ite (fun _ => ?_) fun _ =>
    makes_settleBatch hs _ h))
  refine .bind makes_mayThrow fun _ _ => .bind (V := fun _ => True) ?_ fun _ _ => .pure trivial
  refine (makes_ack _).weaken (fun ch hch => .inr ⟨?_, hch.2⟩) fun _ h => h
  obtain ⟨source, hsource, hid⟩ := hch.1
  obtain ⟨entry, hentry, hsome⟩ := List.mem_filterMap.mp hsource
  obtain ⟨hmem, -⟩ := h entry hentry
  cases hevent : entry.1.event with
  | some event =>
    obtain ⟨-, e, he, hid'⟩ := hs.events entry.1 hmem event hevent
    rw [hevent, Option.some_or, Option.some_inj] at hsome
    exact ⟨e, he, hid.trans (hsome ▸ hid')⟩
  | none =>
    obtain ⟨e, he, hvalue⟩ := hs.values entry.1 hmem
    rw [hevent, Option.none_or] at hsome
    simp only [recoveredEvents, List.filterMap_cons, List.filterMap_nil, hvalue,
      List.head?_cons, Option.some_inj] at hsome
    exact ⟨e, he, hid.trans (congrArg OutboxEvent.id hsome.symm)⟩

theorem makes_settleRetries {s : LoopState D} (hs : FromBatch batch s)
    {entries : List (PendingFailure D × DeliveryFailure D)} (h : OfFailures s entries) :
    Makes t (OfSettlement cfg.mode batch) (settleRetries cfg t entries) fun _ => True :=
  .ite (fun _ => .pure trivial) fun _ =>
    .bind (makes_settleBatch hs _ h).attempt.anyResult fun _ _ => .pure trivial

theorem makes_settleLeasedFailures {s : LoopState D} (hs : FromBatch batch s) :
    Makes t (OfSettlement cfg.mode batch)
      (settleLeasedFailures cfg t s.deliveryFailures s.deferred) fun _ => True := by
  refine .bind (V := fun split => ∃ env, split = splitFailures cfg.options env s.deliveryFailures)
    (.atomically fun c s => ⟨.inl (.refl s), fun split h => ?_⟩) fun split hsplit => ?_
  · cases h
    exact ⟨_, rfl⟩
  · obtain ⟨env, rfl⟩ := hsplit
    have hmem := mem_splitFailures cfg.options env s.deliveryFailures
    refine .bind (makes_settleDeadLetters hs fun entry h => hmem entry (.inr h)) fun _ _ =>
      .bind (makes_settleRetries hs fun entry h => hmem entry (.inl h)) fun _ _ => ?_
    refine .bind (V := fun _ => True) ?_ fun _ _ => .pure trivial
    exact (makes_release _).attempt.anyResult.weaken (fun _ h => .inl h) fun _ h => h

/-! ## The run -/

theorem triple_runLeasedSearchSync (cfg : SearchSync D) :
    Triple t (fun _ _ => True) (runLeasedSearchSync cfg t)
      (fun reports g s => ∀ report ∈ reports, Guarded cfg.mode t report g s)
      fun _ _ _ => True := by
  refine .bind (triple_lease _) fun batch => ?_
  intro g s hinv h
  have hbatch : FromBatch batch (LoopState.init (D := D)) :=
    ⟨fun _ h => (nomatch h), fun _ h => (nomatch h), fun _ h => (nomatch h)⟩
  refine Protocol.Triple.bind (triple_searchSyncLoop h.2 batch (List.Subset.refl _) 0 _ hbatch [])
    (fun r => ?_) g s hinv ⟨h.1, fun _ h => (nomatch h)⟩
  intro g s hinv h
  have hA : Respects t (OfSettlement cfg.mode batch) fun g s =>
      ∀ report, report ∈ r.2 → Guarded cfg.mode t report g s := by
    refine .all fun report => .imp fun hmem => ?_
    obtain ⟨-, -, hrepair⟩ := h.1.2 report hmem
    refine respects_guarded _ _ (fun repair hr ch hch => ?_) fun hmode ch hch => ?_
    · rcases hch with hch | ⟨⟨e, he, hid⟩, -⟩
      · exact .inl hch
      · exact .inr (hid ▸ ((hrepair repair hr).2 e he).symm)
    · rcases hch with hch | ⟨-, hch⟩
      · exact .inl hch
      · exact .inr (.inl (hch.resolve_left (by simp [hmode])))
  refine Protocol.Triple.bind ((makes_settleLeasedFailures h.2 _ hA).weaken (fun _ _ _ h => h)
    (fun _ _ _ _ h => h.1) fun _ _ _ _ _ => trivial) (fun _ => .pure fun _ _ _ h => h) g s hinv
    fun report hmem => (h.1.2 report hmem).1

omit [DecidableEq D] in
theorem makes_writeRow (key : String) (document : Option D) (event : OutboxEvent D) :
    Makes t (fun _ => True) (writeRow t key document event) fun _ => True := by
  refine .storeCall fun s => ⟨?_, fun _ _ => trivial⟩
  unfold World.create
  split
  · next h =>
    split at h
    · cases h
    · cases h
      exact .inr ⟨_, _, ⟨rfl, rfl, List.Subset.refl _⟩, trivial⟩
  · exact .inl (.refl s)

omit [DecidableEq D] in
theorem makes_arrive : Makes t (fun _ => True) (arrive : OutboxTask T D Unit) fun _ => True := by
  refine .atomically fun c s => ⟨.inl ?_, fun _ _ => trivial⟩
  split
  · next request _ =>
    obtain ⟨hevents, hlog, hused⟩ := s.acceptSearch_same request
    exact ⟨hevents, hlog, hused⟩
  · exact .refl s

omit [DecidableEq D] in
/-- A task that is no worker. -/
theorem triple_other {α : Type} {p : OutboxTask T D α} {Z : Change D → Prop} {V : α → Prop}
    (h : Makes t Z p V) :
    Triple t (fun _ _ => True) (p >>= fun _ => pure [])
      (fun reports g s => ∀ report ∈ reports, Guarded mode t report g s) fun _ _ _ => True :=
  .bind (h _ (.const True)) fun _ => .pure fun _ _ _ _ _ hmem => (nomatch hmem)

theorem triple_task (job : Job D) :
    Triple t (fun _ _ => True) (job.task mode t)
      (fun reports g s => ∀ report ∈ reports, Guarded mode t report g s) fun _ _ _ => True := by
  cases job with
  | worker cfg => exact triple_runLeasedSearchSync { cfg with mode }
  | write key document event => exact triple_other (makes_writeRow key document event)
  | append event => exact triple_other (makes_append event)
  | renewLease event => exact triple_other (makes_renewLease event)
  | release events => exact triple_other (makes_release events)
  | settle disposition failures => exact triple_other (makes_settleDeliveryFailures _ failures)
  | ack events => exact triple_other (makes_ack events)
  | arrive => exact triple_other makes_arrive

end

/-! ## Runs -/

/-- Nothing has happened yet, and `randomUUID` does not return the id of a row. -/
structure World.Initial (s : World T D) : Prop where
  log : s.log = []
  used : ∀ id, (s.events id).isSome = true → id ∈ s.usedIds

abbrev Tasks (T D : Type) := Pool T (World T D) (Choice D) OutboxError (List (Report D))

def start (mode : StoreMode) (s : World T D) (jobs : T → Job D) : Tasks T D :=
  Pool.init s fun t => (jobs t).task mode t

abbrev Run (c : Tasks T D) (es : List (T × Choice D)) (c' : Tasks T D) : Prop :=
  Pool.Run (fun _ => True) c es c'

/-- The task has deleted the outbox row and not put it back. -/
def World.DeletedBy (s : World T D) (t : T) (id : String) : Prop :=
  presence id (s.own t) = some false

/-- Another task has changed the outbox row. -/
def World.ChangedByOther (s : World T D) (t : T) (id : String) : Prop :=
  ∃ x ∈ s.log, x.1 ≠ t ∧ x.2.id = id

theorem guarded_of_run {s : World T D} (h₀ : s.Initial) {jobs : T → Job D}
    {es : List (T × Choice D)} {c : Tasks T D} (hrun : Run (start mode s jobs) es c) (t : T)
    {reports : List (Report D)} (hdone : c.prog t = .ret reports) :
    ∃ g, Tracked g c.state ∧ ∀ report ∈ reports, Guarded mode t report g c.state := by
  have hinit : (protocol (D := D)).inv (fun _ => []) s := by
    refine ⟨fun t => ?_, fun id b hb => ?_, h₀.used, fun x hx => ?_⟩
    · rw [World.own, h₀.log]
      rfl
    · rw [h₀.log] at hb
      cases hb
    · rw [h₀.log] at hx
      cases hx
  obtain ⟨g, hinv, hstands⟩ := Protocol.sound (fun _ _ _ => True)
    (fun t reports g s => ∀ report ∈ reports, Guarded mode t report g s) (fun _ _ _ _ => True)
    (fun _ => (Protocol.Kept.const _).stable) (fun t => triple_task (jobs t)) hinit
    (fun _ => trivial) hrun
  refine ⟨g, hinv, ?_⟩
  rcases hstands t with ⟨_, hprog, _⟩ | ⟨_, hsafe⟩
  · have htask : Triple t (fun _ _ => True) ((jobs t).task mode t)
        (fun reports g s => ∀ report ∈ reports, Guarded mode t report g s) fun _ _ _ => True :=
      triple_task (jobs t)
    have hprog : c.prog t = (jobs t).task mode t := hprog
    have hnow := htask g c.state hinv trivial
    rw [← hprog, hdone] at hnow
    exact hnow
  · have hnow := hsafe g c.state (.refl hinv)
    rw [hdone] at hnow
    exact hnow

/-- In every run of workers, writers and other callers on one outbox: when a worker has ended, each
of its deliveries that started a search write has acknowledged its event, or its repair event is
still in the outbox unless another task has changed it, or `ack` has thrown that it could not put
back what it had deleted. -/
theorem repair_guarded (mode : StoreMode) (s : World T D) (h₀ : s.Initial) (jobs : T → Job D)
    (es : List (T × Choice D)) (c : Tasks T D) (hrun : Run (start mode s jobs) es c) (t : T)
    (reports : List (Report D)) (hdone : c.prog t = .ret reports) (report : Report D)
    (hreport : report ∈ reports) (hstarted : report.mutationStarted = true) :
    ∃ repair, report.repair = some repair ∧
      (report.result = .processed ∨ c.state.DeletedBy t report.event.id ∨
        (c.state.events repair.id).isSome = true ∨ c.state.ChangedByOther t repair.id ∨
          report.result = .failed .rollbackFailed) := by
  obtain ⟨g, hinv, hguarded⟩ := guarded_of_run h₀ hrun t hdone
  obtain ⟨repair, hrepair, hresult⟩ := hguarded report hreport hstarted
  refine ⟨repair, hrepair, ?_⟩
  have hother : TouchedByOther t repair.id g → c.state.ChangedByOther t repair.id := by
    rintro ⟨u, hu, ch, hch, hid⟩
    rw [hinv.own, World.own] at hch
    obtain ⟨x, hx, rfl⟩ := List.mem_map.mp hch
    obtain ⟨hx, htask⟩ := List.mem_filter.mp hx
    exact ⟨x, hx, (of_decide_eq_true htask) ▸ hu, hid⟩
  rcases hresult with h | h | (h | h) | ⟨-, h⟩
  · exact .inl h
  · exact .inr (.inr (.inr (.inr h)))
  · rcases hinv.isSome_of_own h with h | h
    · exact .inr (.inr (.inl h))
    · exact .inr (.inr (.inr (.inl (hother h))))
  · exact .inr (.inr (.inr (.inl (hother h))))
  · exact .inr (.inl ((congrArg (presence _) (hinv.own t)).symm.trans h))

/-- An event of a post that is to be read from the store. -/
def postChanged : OutboxEvent Nat where
  id := "event"
  model := "Post"
  modelId := some (.number 1)
  modelIdentity := none
  modelDatastoreAncestor := none
  modelDatastoreScope := none
  operation := .update
  data := none
  reconcileFromStore := true
  createdAt := 0
  sequence := none
  version := some 0
  leaseToken := none
  leaseExpiresAt := none
  deliveryAttempts := none
  availableAt := none
  deadLetteredAt := none
  lastDeliveryError := none

def postOutbox : World Unit Nat where
  clock := 1
  events := Function.update (fun _ => none) "event" (some postChanged)
  usedIds := ["event"]
  revisions _ := none
  rows _ := some 7
  search _ _ := ⟨none, none⟩
  inFlight := []
  log := []

theorem postOutbox_initial : postOutbox.Initial where
  log := rfl
  used id h := by
    rcases eq_or_ne id "event" with rfl | hid
    · exact .head _
    · have hnone : postOutbox.events id = none := by simp [postOutbox, hid]
      rw [hnone] at h
      cases h

/-- A store with optimistic locking and without transactions. -/
def lockingStore : StoreMode := ⟨true, false, false⟩

/-- One search adapter that takes revisions, and no dead letters. -/
def postSearchSync : SearchSync Nat where
  mode := lockingStore
  options := ⟨5, Nat.succ_pos 4, Nat.le_of_ble_eq_true rfl, none, false, true⟩
  deadLetterSink := false
  documentIdentity _ _ _ _ := ""
  routes _ := some [⟨"search", true⟩]
  searchSyncReservationIdentity _ := "post"
  searchDocumentIdentity _ _ := "post"
  rowKey _ := "post"

/-- The steps of a worker, some of which do not end well. Its lease is its second step and its
third gives the number of pages; the next id is that of the repair event. -/
def postSchedule (steps : Nat) (outcome : Nat → Outcome) : List (Unit × Choice Nat) :=
  (List.range steps).map fun n =>
    ((), ⟨outcome n, false, 0, if n = 1 then "token" else "repair", [postChanged],
      if n = 2 then 1 else 0, .delivering ⟨none, .lost⟩⟩)

/-- The deletion of the repair event takes effect and fails, the deleted event is put back, and the
repair event is not. -/
theorem repair_lost : ¬ ∀ (mode : StoreMode) (s : World Unit Nat) (jobs : Unit → Job Nat)
    (es : List (Unit × Choice Nat)) (c : Tasks Unit Nat) (t : Unit)
    (reports : List (Report Nat)) (report : Report Nat), s.Initial →
    Run (start mode s jobs) es c → c.prog t = .ret reports → report ∈ reports →
    report.mutationStarted = true →
      ∃ repair, report.repair = some repair ∧
        (report.result = .processed ∨ c.state.DeletedBy t report.event.id ∨
          (c.state.events repair.id).isSome = true ∨ c.state.ChangedByOther t repair.id) := by
  intro h
  let es := postSchedule 44 fun n => if n = 37 then .uncertain else if n = 40 then .failed else .ok
  obtain ⟨c, hexec, htest⟩ := (Option.any_eq_true _ _).mp (by decide +kernel :
    ((start lockingStore postOutbox fun _ => .worker postSearchSync).exec (fun _ => True) es).any
      fun c => (c.prog ()).returned.any fun reports => reports.any fun report =>
        report.mutationStarted && report.result ≠ .processed &&
          presence report.event.id (c.state.own ()) ≠ some false &&
          report.repair.all fun repair => (c.state.events repair.id).isNone)
  obtain ⟨reports, hdone, htest⟩ := (Option.any_eq_true _ _).mp htest
  obtain ⟨report, hreport, htest⟩ := List.any_eq_true.mp htest
  simp only [Bool.and_eq_true, decide_eq_true_eq] at htest
  obtain ⟨⟨⟨hstarted, hprocessed⟩, hdeleted⟩, hnone⟩ := htest
  have hrun : Run (start lockingStore postOutbox fun _ => .worker postSearchSync) es c :=
    .of_exec hexec
  obtain ⟨repair, hrepair, hresult⟩ := h lockingStore postOutbox _ es c () reports report
    postOutbox_initial hrun (Prog.returned_eq_some.mp hdone) hreport hstarted
  rw [hrepair] at hnone
  have hnone : c.state.events repair.id = none := Option.isNone_iff_eq_none.mp hnone
  rcases hresult with h | h | h | ⟨x, -, hx, -⟩
  · exact hprocessed h
  · exact hdeleted h
  · rw [hnone] at h
    cases h
  · exact hx rfl

/-- The search write takes effect and fails: the repair event stays. -/
theorem repair_guarded_failedWrite :
    ∃ (es : List (Unit × Choice Nat)) (c : Tasks Unit Nat) (report : Report Nat)
      (repair : OutboxEvent Nat),
      Run (start lockingStore postOutbox fun _ => .worker postSearchSync) es c ∧
        report.repair = some repair ∧ report.result = .failed .store ∧
        (c.state.events repair.id).isSome = true := by
  let es := postSchedule 31 fun n => if n = 26 then .uncertain else .ok
  obtain ⟨c, hexec, htest⟩ := (Option.any_eq_true _ _).mp (by decide +kernel :
    ((start lockingStore postOutbox fun _ => .worker postSearchSync).exec (fun _ => True) es).any
      fun c => (c.prog ()).returned.any fun reports => reports.any fun report =>
        report.mutationStarted && report.result = .failed .store &&
          presence report.event.id (c.state.own ()) ≠ some false)
  obtain ⟨reports, hdone, htest⟩ := (Option.any_eq_true _ _).mp htest
  obtain ⟨report, hreport, htest⟩ := List.any_eq_true.mp htest
  simp only [Bool.and_eq_true, decide_eq_true_eq] at htest
  obtain ⟨⟨hstarted, hfailed⟩, hdeleted⟩ := htest
  have hrun : Run (start lockingStore postOutbox fun _ => .worker postSearchSync) es c :=
    .of_exec hexec
  obtain ⟨repair, hrepair, hresult⟩ := repair_guarded lockingStore postOutbox postOutbox_initial
    _ es c hrun () reports (Prog.returned_eq_some.mp hdone) report hreport hstarted
  refine ⟨es, c, report, repair, hrun, hrepair, hfailed, ?_⟩
  rw [hfailed] at hresult
  rcases hresult with h | h | h | ⟨x, -, hx, -⟩ | h
  · cases h
  · exact absurd h hdeleted
  · exact h
  · exact absurd rfl hx
  · cases h

end ActiveTs.Outbox
