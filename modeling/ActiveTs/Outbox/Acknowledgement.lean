import ActiveTs.Outbox.Changes

/-! # Acknowledging an event and its repair event

`ack` deletes an event and its repair event. When it does not succeed, the repair event is still
there, unless the event itself has been deleted by a committed transaction, or what was deleted
could not be put back. -/

namespace ActiveTs.Outbox

variable {T D : Type} [DecidableEq T] [DecidableEq D] {t : T} {mode : StoreMode}

/-- The row is there as far as the task knows, or another task has changed it. -/
def Held (t : T) (id : String) (g : T → List (Change D)) (_ : World T D) : Prop :=
  presence id (g t) = some true ∨ TouchedByOther t id g

/-- The task has deleted the row and not put it back. -/
def Deleted (t : T) (id : String) (g : T → List (Change D)) (_ : World T D) : Prop :=
  presence id (g t) = some false

section
variable {Z : Change D → Prop} {A B : (T → List (Change D)) → World T D → Prop}

omit [DecidableEq D] in
theorem respects_held (id : String) (hZ : ∀ ch, Z ch → ch.IsUpdate ∨ ch.id ≠ id) :
    Respects t Z (Held t id) :=
  (Respects.presence id _ hZ).or (.kept (kept_touchedByOther t id))

omit [DecidableEq D] in
theorem stable_deleted (id : String) : protocol.Stable t (Deleted (D := D) t id) :=
  .own fun l => presence id l = some false

omit [DecidableEq D] in
/-- A store call that fails without effect or changes one row: where it succeeds it has made the
change, and a conflict changes nothing. -/
theorem triple_change {f : World T D → World T D × Except OutboxError Unit}
    {Q : List (Change D) → Prop}
    (hf : ∀ s, (∃ e, f s = (s, .error e)) ∨ ∃ id after,
      f s = (s.setEvent t id after, .ok ()) ∧ Z ⟨id, s.events id, after⟩)
    (hA : Respects t Z A) (hB : Respects t (fun _ => False) B)
    (hQ : ∀ l ch, Z ch → Q (l ++ [ch])) :
    Triple t (fun g s => A g s ∧ B g s) (storeCall f) (fun _ g s => A g s ∧ Q (g t))
      fun e g s => A g s ∧ (e.isConflict = true → B g s) := by
  refine .atomically (fun c g s hinv hP _ => ?_) (fun _ => hA.stable.and (.own Q))
    fun e => hA.stable.and fun g s g' s' hinv h hr he => hB.stable g s g' s' hinv (h he) hr
  have hmoves := moves_advance (t := t) hinv c.tick
  have hsame : A g (s.advance c.tick) ∧ B g (s.advance c.tick) :=
    ⟨hA.step hP.1 hmoves (.inl rfl), hB.step hP.2 hmoves (.inl rfl)⟩
  have hnone : ∀ e : OutboxError, ∃ g', protocol.Moves t g s g' (s.advance c.tick) ∧
      (∀ u : Unit, Except.error e = .ok u → A g' (s.advance c.tick) ∧ Q (g' t)) ∧
      ∀ e', (Except.error e : Except OutboxError Unit) = .error e' →
        A g' (s.advance c.tick) ∧ (e'.isConflict = true → B g' (s.advance c.tick)) :=
    fun e => ⟨g, hmoves, fun _ h => (nomatch h), fun _ _ => ⟨hsame.1, fun _ => hsame.2⟩⟩
  rcases hf (s.advance c.tick) with ⟨e, hcall⟩ | ⟨id, after, hcall, hz⟩
  · cases c.outcome with
    | ok =>
      simp only [hcall]
      exact hnone e
    | uncertain =>
      simp only [hcall]
      exact hnone _
    | failed => exact hnone _
    | late => exact hnone _
  · obtain ⟨g', hset, hl⟩ := (Effect.of_advance (.inr ⟨id, after, .refl _, hz⟩) :
      Effect t Z s ((s.advance c.tick).setEvent t id after)).moves hinv
    have hown : g' t = g t ++ [⟨id, s.events id, after⟩] := by
      rw [hset.inv.own, ← (hmoves.inv.setEvent t id after).own, Function.update_self]
      rfl
    have hdone : A g' ((s.advance c.tick).setEvent t id after) ∧ Q (g' t) := by
      refine ⟨hA.step hP.1 hset hl, ?_⟩
      rw [hown]
      exact hQ _ _ hz
    cases c.outcome with
    | ok =>
      simp only [hcall]
      exact ⟨g', hset, fun _ _ => hdone, fun _ h => (nomatch h)⟩
    | uncertain =>
      simp only [hcall]
      refine ⟨g', hset, fun _ h => (nomatch h), fun e' he' => ⟨hdone.1, fun h => ?_⟩⟩
      cases he'
      cases h
    | failed => exact hnone _
    | late => exact hnone _

omit [DecidableEq D] in
theorem triple_deleteEvent (current : OutboxEvent D) (v : Option Nat)
    (hA : Respects t (fun ch => ch.id = current.id ∧ ch.after = none) A)
    (hB : Respects t (fun _ => False) B) :
    Triple t (fun g s => A g s ∧ B g s) (storeCall fun s => s.delete t current.id v)
      (fun _ g s => A g s ∧ Deleted t current.id g s)
      fun e g s => A g s ∧ (e.isConflict = true → B g s) := by
  refine triple_change (fun s => ?_) hA hB (Q := fun l => presence current.id l = some false)
    fun l ch hch => ?_
  · unfold World.delete
    split
    · split
      · exact .inl ⟨_, rfl⟩
      · exact .inr ⟨_, _, rfl, rfl, rfl⟩
    · split
      · exact .inl ⟨_, rfl⟩
      · exact .inr ⟨_, _, rfl, rfl, rfl⟩
  · obtain ⟨id, before, after⟩ := ch
    obtain ⟨rfl, rfl⟩ := hch
    exact presence_removed

omit [DecidableEq D] in
theorem triple_append (event : OutboxEvent D)
    (hA : Respects t (fun ch => ch = ⟨event.id, none, some event⟩) A) :
    Triple t A (append t event)
      (fun _ g s => A g s ∧ presence event.id (g t) = some true) fun _ => A := by
  have h : Triple t (fun g s => A g s ∧ True) (append t event)
      (fun _ g s => A g s ∧ presence event.id (g t) = some true)
      fun e g s => A g s ∧ (e.isConflict = true → True) := by
    refine triple_change (fun s => ?_) hA (.const True)
      (Q := fun l => presence event.id l = some true) fun l ch hch => ?_
    · unfold World.create
      split
      · exact .inl ⟨_, rfl⟩
      · next hnone => exact .inr ⟨_, _, rfl, by rw [Option.not_isSome_iff_eq_none.mp hnone]⟩
    · cases hch
      exact presence_inserted
  exact h.weaken (fun _ _ _ h => ⟨h, trivial⟩) (fun _ _ _ _ h => h) fun _ _ _ _ h => h.1

/-- A transaction's body that succeeds has deleted the row of its first event, and else nothing. -/
theorem triple_ackRun (event : OutboxEvent D) (rest : List (OutboxEvent D)) (now : Nat)
    (hA : Respects t (OfAck false (event :: rest)) A) (hB : Respects t (fun _ => False) B) :
    Triple t (fun g s => A g s ∧ B g s) (ackRun mode t false (event :: rest) now)
      (fun acknowledged g s => A g s ∧ (acknowledged = true → Deleted t event.id g s) ∧
        (acknowledged = false → B g s)) fun _ _ _ => True := by
  have hP : Respects t (fun _ => False) fun g s => A g s ∧ B g s :=
    (hA.mono fun _ h => h.elim).and hB
  refine .bind ((makes_ackChecks now _ _ hP).weaken (fun _ _ _ h => h) (fun _ _ _ _ h => h)
    fun _ _ _ _ _ => trivial) fun r => ?_
  cases r with
  | none => exact .pure fun _ _ _ h => ⟨h.1.1, fun h => (nomatch h), fun _ => h.1.2⟩
  | some currentEvents =>
    intro g s hinv h
    obtain rfl := h.2 currentEvents rfl
    have hdelete := triple_deleteEvent event (mode.expectedVersion event)
      (hA.mono fun ch hch => ⟨⟨event, List.mem_cons_self, hch.1⟩, .inr hch.2⟩) hB
    have hothers : Respects t (OfAck false (event :: rest)) fun g s =>
        A g s ∧ Deleted t event.id g s :=
      hA.and (.presence_false _ fun ch hch => .inr (.inl (hch.2.resolve_left (by simp))))
    refine Protocol.Triple.bind hdelete.attempt (fun result => ?_) g s hinv h.1
    cases result with
    | ok u =>
      have hdeletes : Triple t _ (ackDeletes mode t false rest [event]) _ _ :=
        makes_ackDeletes false rest _ (List.subset_cons_self _ _)
          (List.cons_subset.mpr ⟨List.mem_cons_self, List.nil_subset _⟩) _ hothers
      refine hdeletes.weaken (fun _ _ _ h => h) (fun acknowledged _ _ _ h => ?_)
        fun _ _ _ _ _ => trivial
      rw [h.2 rfl]
      exact ⟨h.1.1, fun _ => h.1.2, fun h => (nomatch h)⟩
    | error e => exact .throw fun _ _ _ _ => trivial

/-- What is left of a guarded event that is not acknowledged. -/
def AckLeft (mode : StoreMode) (t : T) (source repair : String) (g : T → List (Change D))
    (s : World T D) : Prop :=
  Held t repair g s ∨ mode.recoverDeletes = false ∧ Deleted t source g s

omit [DecidableEq D] in
theorem stable_held (id : String) : protocol.Stable t (Held (D := D) t id) :=
  (respects_held (Z := fun _ => False) id fun _ h => h.elim).stable

omit [DecidableEq D] in
/-- A row that is put back is there, whoever has put it back. -/
theorem triple_reinsertDeletedEvent (repair : OutboxEvent D)
    (hA : Respects t (fun ch => ch = ⟨repair.id, none, some repair⟩) A)
    (hpresence : ∀ g s, A g s → (presence repair.id (g t)).isSome = true) :
    Triple t A (reinsertDeletedEvent t repair) (fun _ g s => A g s ∧ Held t repair.id g s)
      fun _ => A := by
  have hread : Triple t A (currentOutboxEvent repair.id) (fun current g s =>
      A g s ∧ (current.isSome = true → Held t repair.id g s)) fun _ => A := by
    refine .atomically (fun c g s hinv hP _ => ?_) (fun current => hA.stable.and
      fun g s g' s' hinv h hr hsome => stable_held _ g s g' s' hinv (h hsome) hr)
      fun _ => hA.stable
    have hmoves := moves_advance (t := t) hinv c.tick
    have hP' := hA.step hP hmoves (.inl rfl)
    have hheld : ((s.advance c.tick).events repair.id).isSome = true →
        Held t repair.id g (s.advance c.tick) := fun hsome => by
      obtain ⟨b, hb⟩ := Option.isSome_iff_exists.mp (hpresence _ _ hP)
      rcases hinv.isSome_of_own hb with h | h
      · refine .inl ?_
        rw [hb, ← h]
        exact congrArg some hsome
      · exact .inr h
    cases c.outcome with
    | ok =>
      refine ⟨g, hmoves, fun current hcurrent => ⟨hP', fun hsome => hheld ?_⟩, fun _ _ => hP'⟩
      cases hcurrent
      exact hsome
    | uncertain => exact ⟨g, hmoves, fun _ h => (nomatch h), fun _ _ => hP'⟩
    | failed => exact ⟨g, hmoves, fun _ h => (nomatch h), fun _ _ => hP'⟩
    | late => exact ⟨g, hmoves, fun _ h => (nomatch h), fun _ _ => hP'⟩
  refine .bind hread fun current => .ite (fun hnone => ?_) fun hsome => .pure fun _ _ _ h => ?_
  · exact (triple_append repair hA).weaken (fun _ _ _ h => h.1)
      (fun _ _ _ _ h => ⟨h.1, .inl h.2⟩) fun _ _ _ _ h => h
  · refine ⟨h.1, h.2 ?_⟩
    rw [Option.isSome_iff_ne_none]
    exact fun hnone => hsome (Option.isNone_iff_eq_none.mpr hnone)

omit [DecidableEq D] in
/-- Putting rows back does not fail: it says whether they all are back. -/
theorem triple_reinsertDeletedEvents (deleted : List (OutboxEvent D))
    (hA : Respects t (OfAck true deleted) A) :
    Triple t A (reinsertDeletedEvents t deleted) (fun _ => A) fun _ _ _ => False := by
  induction deleted with
  | nil => exact .pure fun _ _ _ h => h
  | cons event rest ih =>
    have hrest : Respects t (OfAck true rest) A := hA.mono fun ch hch => by
      obtain ⟨e, he, hid⟩ := hch.1
      exact ⟨⟨e, List.mem_cons_of_mem _ he, hid⟩, hch.2⟩
    refine .bind (Protocol.Triple.attempt (makes_reinsertDeletedEvent List.mem_cons_self A hA))
      fun r => ?_
    have hothers : Triple t A (do
        let others ← reinsertDeletedEvents t rest
        return r.isOk && others) (fun _ => A) fun _ _ _ => False :=
      .bind (ih hrest) fun _ => .pure fun _ _ _ h => h
    cases r with
    | ok u => exact hothers.pre fun _ _ _ h => h.1
    | error e => exact hothers

omit [DecidableEq D] in
theorem triple_reinsertBoth (event repair : OutboxEvent D)
    (hA : Respects t (OfAck true [event, repair]) A)
    (hpresence : ∀ g s, A g s → (presence repair.id (g t)).isSome = true) :
    Triple t A (reinsertDeletedEvents t [event, repair])
      (fun reinserted g s => A g s ∧ (reinserted = true → Held t repair.id g s))
      fun _ _ _ => False := by
  have hput : Respects t (fun ch => ch = ⟨repair.id, none, some repair⟩) A :=
    hA.mono fun ch hch => ⟨⟨repair, List.mem_cons_of_mem _ List.mem_cons_self, by rw [hch]⟩, .inl rfl⟩
  have hsecond : ∀ first : Bool, Triple t A (do
      let others ← reinsertDeletedEvents t [repair]
      return first && others)
      (fun reinserted g s => A g s ∧ (reinserted = true → Held t repair.id g s))
      fun _ _ _ => False := fun first => by
    have hone : Triple t A (reinsertDeletedEvents t [repair])
        (fun reinserted g s => A g s ∧ (reinserted = true → Held t repair.id g s))
        fun _ _ _ => False := by
      refine .bind (Protocol.Triple.attempt (triple_reinsertDeletedEvent repair hput hpresence))
        fun r => ?_
      cases r with
      | ok u => exact .pure fun _ _ _ h => ⟨h.1, fun _ => h.2⟩
      | error e => exact .pure fun _ _ _ h => ⟨h, fun h => (nomatch h)⟩
    exact .bind hone fun others => .pure fun _ _ _ h =>
      ⟨h.1, fun hok => h.2 (Bool.and_eq_true_iff.mp hok).2⟩
  refine .bind (Protocol.Triple.attempt (makes_reinsertDeletedEvent List.mem_cons_self A hA))
    fun r => ?_
  cases r with
  | ok u => exact (hsecond true).pre fun _ _ _ h => h.1
  | error e => exact hsecond false

theorem triple_ackTransaction (event : OutboxEvent D) (rest : List (OutboxEvent D)) (now : Nat)
    (hA : Respects t (OfAck false (event :: rest)) A) (hB : Respects t (fun _ => False) B) :
    Triple t (fun g s => A g s ∧ B g s)
      (orConflict false (transaction (ackRun mode t false (event :: rest) now)))
      (fun acknowledged g s => A g s ∧ (acknowledged = true → Deleted t event.id g s) ∧
        (acknowledged = false → B g s))
      fun _ g s => A g s ∧ (B g s ∨ Deleted t event.id g s) := by
  have hA' : Respects t (fun _ => False) A := hA.mono fun _ h => h.elim
  have hP : Respects t (fun _ => False) fun g s => A g s ∧ B g s := hA'.and hB
  have himp : ∀ (q : Prop) {C : (T → List (Change D)) → World T D → Prop}, protocol.Stable t C →
      protocol.Stable t fun g s => q → C g s :=
    fun q C hC g s g' s' hinv h hr hq => hC g s g' s' hinv (h hq) hr
  have hrun : Triple t _ (ackRun mode t false (event :: rest) now) _ _ :=
    triple_ackRun event rest now hA hB
  have htransaction := triple_transaction (E := fun e g s =>
      A g s ∧ (B g s ∨ e.isConflict = false ∧ Deleted t event.id g s)) hP hrun
    (fun acknowledged => hA'.stable.and ((himp _ (stable_deleted _)).and (himp _ hB.stable)))
    (fun e => hA'.stable.and (hB.or ((Respects.const _).and (.presence_false _ fun _ h => h.elim))).stable)
    (fun e g s h => ⟨h.1, .inl h.2⟩) fun acknowledged g s h => ?_
  · have hconflict : Triple t _ (orConflict false (transaction (ackRun mode t false (event :: rest)
        now))) _ _ := triple_orConflict htransaction fun e g s he h => by
      refine ⟨h.1, fun h => (nomatch h), fun _ => h.2.resolve_right fun h' => ?_⟩
      rw [he] at h'
      cases h'.1
    exact hconflict.weaken (fun _ _ _ h => h) (fun _ _ _ _ h => h) fun e _ _ _ h =>
      ⟨h.1, h.2.imp_right (·.2)⟩
  · cases acknowledged with
    | true => exact ⟨h.1, .inr ⟨rfl, h.2.1 rfl⟩⟩
    | false => exact ⟨h.1, .inl (h.2.2 rfl)⟩

/-- An acknowledgement in transactions deletes the repair event only after its event. -/
theorem triple_ack_transactional (hmode : mode.recoverDeletes = false)
    (event repair : OutboxEvent D)
    (hA : Respects t (OfAck false [event, repair]) A) :
    Triple t (fun g s => A g s ∧ presence repair.id (g t) = some true)
      (ack mode t [event, repair])
      (fun acknowledged g s =>
        A g s ∧ (acknowledged = false → AckLeft mode t event.id repair.id g s))
      fun _ g s => A g s ∧ AckLeft mode t event.id repair.id g s := by
  have hB : Respects t (fun _ => False) fun g (_ : World T D) =>
      presence repair.id (g t) = some true := .presence _ _ fun _ h => h.elim
  have hheld : ∀ g s, presence repair.id (g t) = some true →
      AckLeft (D := D) mode t event.id repair.id g s := fun _ _ h => .inl (.inl h)
  have hdeleted : ∀ g s, Deleted t event.id g s → AckLeft (D := D) mode t event.id repair.id g s :=
    fun _ _ h => .inr ⟨hmode, h⟩
  have hnow : Triple t (fun g s => A g s ∧ presence repair.id (g t) = some true) now
      (fun _ g s => A g s ∧ presence repair.id (g t) = some true)
      fun _ g s => A g s ∧ AckLeft mode t event.id repair.id g s :=
    (makes_now _ ((hA.mono fun _ h => h.elim).and hB)).weaken (fun _ _ _ h => h)
      (fun _ _ _ _ h => h.1) fun _ g s _ h => ⟨h.1, hheld g s h.2⟩
  unfold ack
  split
  · refine .bind hnow fun now => ?_
    have hA₁ : Respects t (OfAck false [event]) A := hA.mono fun ch h => ⟨?_, h.2⟩
    · refine .bind ((triple_ackTransaction event [] now hA₁ hB).weaken (fun _ _ _ h => h)
        (fun _ _ _ _ h => h) fun _ g s _ h => ⟨h.1, h.2.elim (hheld g s) (hdeleted g s)⟩)
        fun acknowledged => ?_
      cases acknowledged with
      | true =>
        have hA₂ : Respects t (OfAck false [repair]) fun g s => A g s ∧ Deleted t event.id g s := by
          refine (hA.mono fun ch h => ⟨?_, h.2⟩).and
            (.presence_false _ fun ch h => .inr (.inl (h.2.resolve_left (by simp))))
          obtain ⟨e, he, hid⟩ := h.1
          exact ⟨e, List.mem_cons_of_mem _ he, hid⟩
        refine (makes_ackEach [repair] _ hA₂).weaken (fun _ _ _ h => ⟨h.1, h.2.1 rfl⟩)
          (fun _ g s _ h => ⟨h.1.1, fun _ => hdeleted g s h.1.2⟩)
          fun _ g s _ h => ⟨h.1, hdeleted g s h.2⟩
      | false => exact .pure fun g s _ h => ⟨h.1, fun _ => hheld g s (h.2.2 rfl)⟩
    · obtain ⟨e, he, hid⟩ := h.1
      cases List.mem_singleton.mp he
      exact ⟨_, List.mem_cons_self, hid⟩
  · next heach =>
    refine .bind hnow fun now => ?_
    have hmanaged : mode.managementTransactions = true := by
      simpa [StoreMode.recoverDeletes, heach] using hmode
    rw [if_pos hmanaged]
    exact (triple_ackTransaction event [repair] now hA hB).weaken (fun _ _ _ h => h)
      (fun _ g s _ h => ⟨h.1, fun hfalse => hheld g s (h.2.2 hfalse)⟩)
      fun _ g s _ h => ⟨h.1, h.2.elim (hheld g s) (hdeleted g s)⟩

/-- An acknowledgement that puts back what it has deleted leaves the repair event, unless it fails
to put it back. -/
theorem triple_ack_recovering (hmode : mode.recoverDeletes = true) (event repair : OutboxEvent D)
    (hne : repair.id ≠ event.id) (hA : Respects t (OfAck true [event, repair]) A) :
    Triple t (fun g s => A g s ∧ presence repair.id (g t) = some true)
      (ack mode t [event, repair])
      (fun acknowledged g s => A g s ∧ (acknowledged = false → Held t repair.id g s))
      fun e g s => A g s ∧ (e ≠ .rollbackFailed → Held t repair.id g s) := by
  have hB : ∀ {Z : Change D → Prop}, (∀ ch, Z ch → ch.id = event.id) → Respects t Z
      fun g (_ : World T D) => presence repair.id (g t) = some true := fun h =>
    .presence _ _ fun ch hch => .inr (h ch hch ▸ hne.symm)
  have hevent : ∀ ch : Change D, OfAck true [event] ch → OfAck true [event, repair] ch ∧
      ch.id = event.id := by
    rintro ch ⟨⟨e, he, hid⟩, h⟩
    cases List.mem_singleton.mp he
    exact ⟨⟨⟨_, List.mem_cons_self, hid⟩, h⟩, hid⟩
  have hheld : ∀ g s, presence repair.id (g t) = some true → Held (D := D) t repair.id g s :=
    fun _ _ h => .inl h
  -- While only the event is put back, the repair event is still there.
  have hP : Respects t (OfAck true [event]) fun g s =>
      A g s ∧ presence repair.id (g t) = some true :=
    (hA.mono fun ch h => (hevent ch h).1).and (hB fun ch h => (hevent ch h).2)
  have hP' : Respects t (fun _ => False) fun g s => A g s ∧ presence repair.id (g t) = some true :=
    hP.mono fun _ h => h.elim
  let Lost : OutboxError → (T → List (Change D)) → World T D → Prop := fun e g s =>
    A g s ∧ (e ≠ .rollbackFailed → Held t repair.id g s)
  have herror : ∀ e g s, A g s ∧ presence repair.id (g t) = some true → Lost e g s :=
    fun e g s h => ⟨h.1, fun _ => hheld g s h.2⟩
  have hback : ∀ deleted : List (OutboxEvent D), deleted ⊆ [event] →
      Triple t (fun g s => A g s ∧ presence repair.id (g t) = some true)
        (reinsertDeletedEvents t deleted)
        (fun _ g s => A g s ∧ presence repair.id (g t) = some true) Lost := by
    intro deleted hdeleted
    refine (triple_reinsertDeletedEvents deleted (hP.mono fun ch hch => ⟨?_, hch.2⟩)).weaken
      (fun _ _ _ h => h) (fun _ _ _ _ h => h) fun _ _ _ _ h => h.elim
    obtain ⟨e, he, hid⟩ := hch.1
    exact ⟨e, hdeleted he, hid⟩
  -- The end of a conflict, and of another error, while the repair event is there.
  have hconflict : ∀ deleted : List (OutboxEvent D), deleted ⊆ [event] →
      Triple t (fun g s => A g s ∧ presence repair.id (g t) = some true)
        (do if ← reinsertDeletedEvents t deleted then return false else throw .rollbackFailed)
        (fun acknowledged g s => A g s ∧ (acknowledged = false → Held t repair.id g s)) Lost :=
    fun deleted hdeleted => .bind (hback deleted hdeleted) fun _ =>
      .ite (fun _ => .pure fun g s _ h => ⟨h.1, fun _ => hheld g s h.2⟩)
        fun _ => .throw fun g s _ h => herror _ g s h
  have hsome : ∀ {Z : Change D → Prop}, (∀ ch, Z ch → OfAck true [event, repair] ch) →
      Respects t Z fun g s => A g s ∧ (presence repair.id (g t)).isSome = true :=
    fun h => (hA.mono h).and (.presence_isSome _)
  have hdeletes : Triple t (fun g s => A g s ∧ presence repair.id (g t) = some true)
      (ackDeletes mode t true [event, repair] [])
      (fun acknowledged g s => A g s ∧ (acknowledged = false → Held t repair.id g s)) Lost := by
    have hfirst : Respects t (fun ch => ch.id = event.id ∧ ch.after = none) fun g s =>
        A g s ∧ presence repair.id (g t) = some true :=
      hP.mono fun ch h => ⟨⟨event, List.mem_singleton_self _, h.1⟩, .inl rfl⟩
    refine .bind ((triple_deleteEvent event _ hfirst (.const True)).pre
      fun _ _ _ h => ⟨h, trivial⟩).attempt fun result => ?_
    cases result with
    | error e =>
      refine .ite (fun _ => .ite (fun _ => ?_) fun _ => ?_) fun h => absurd rfl h
      · exact (hconflict [] (List.nil_subset _)).pre fun _ _ _ h => h.1
      · exact .bind ((hback _ (List.Subset.refl _)).pre fun _ _ _ h => h.1) fun _ =>
          .ite (fun _ => .throw fun g s _ h => herror e g s h)
            fun _ => .throw fun g s _ h => herror _ g s h
    | ok u =>
      have hsecond : Respects t (fun ch => ch.id = repair.id ∧ ch.after = none) fun g s =>
          A g s ∧ (presence repair.id (g t)).isSome = true :=
        hsome fun ch h => ⟨⟨repair, List.mem_cons_of_mem _ List.mem_cons_self, h.1⟩, .inl rfl⟩
      refine .bind ((triple_deleteEvent repair _ hsecond (hB fun _ h => h.elim)).pre
        fun _ _ _ h => ⟨⟨h.1.1, by rw [h.1.2]; rfl⟩, h.1.2⟩).attempt fun result => ?_
      cases result with
      | ok u => exact .pure fun _ _ _ h => ⟨h.1.1, fun h => (nomatch h)⟩
      | error e =>
        refine .ite (fun _ => .ite (fun he => ?_) fun _ => ?_) fun h => absurd rfl h
        · exact (hconflict [event] (List.Subset.refl _)).pre fun _ _ _ h => ⟨h.1.1, h.2 he⟩
        · have hboth := triple_reinsertBoth event repair (hsome fun _ h => h) fun _ _ h => h.2
          refine .bind ((hboth.weaken (fun _ _ _ h => h) (fun _ _ _ _ h => h)
            fun _ _ _ _ h => h.elim).pre fun _ _ _ h => h.1) fun reinserted => ?_
          cases reinserted with
          | true => exact .throw fun _ _ _ h => ⟨h.1.1, fun _ => h.2 rfl⟩
          | false => exact .throw fun _ _ _ h => ⟨h.1.1, fun h => absurd rfl h⟩
  have hmanaged : mode.managementTransactions = false ∧ mode.eachInTransaction = false := by
    simpa [StoreMode.recoverDeletes, and_comm] using hmode
  unfold ack
  rw [if_neg (by simp [hmanaged.2])]
  refine .bind ((makes_now _ hP').weaken (fun _ _ _ h => h) (fun _ _ _ _ h => h.1)
    fun e g s _ h => herror e g s h) fun now => ?_
  rw [if_neg (by simp [hmanaged.1])]
  refine .bind ((makes_ackChecks now _ _ hP').weaken (fun _ _ _ h => h) (fun _ _ _ _ h => h)
    fun e g s _ h => herror e g s h) fun r => ?_
  cases r with
  | none => exact .pure fun g s _ h => ⟨h.1.1, fun _ => hheld g s h.1.2⟩
  | some currentEvents =>
    intro g s hinv h
    obtain rfl := h.2 currentEvents rfl
    exact hdeletes g s hinv h.1

/-- What is left of a guarded event when `ack` returns or throws. -/
theorem triple_ack (event repair : OutboxEvent D) (hne : repair.id ≠ event.id)
    (hA : Respects t (OfAck mode.recoverDeletes [event, repair]) A) :
    Triple t (fun g s => A g s ∧ presence repair.id (g t) = some true)
      (ack mode t [event, repair])
      (fun acknowledged g s =>
        A g s ∧ (acknowledged = false → AckLeft mode t event.id repair.id g s))
      fun e g s => A g s ∧ (e ≠ .rollbackFailed → AckLeft mode t event.id repair.id g s) := by
  cases hmode : mode.recoverDeletes with
  | false =>
    rw [hmode] at hA
    exact (triple_ack_transactional hmode event repair hA).weaken (fun _ _ _ h => h)
      (fun _ _ _ _ h => h) fun _ _ _ _ h => ⟨h.1, fun _ => h.2⟩
  | true =>
    rw [hmode] at hA
    exact (triple_ack_recovering hmode event repair hne hA).weaken (fun _ _ _ h => h)
      (fun _ _ _ _ h => ⟨h.1, fun hfalse => .inl (h.2 hfalse)⟩)
      fun _ _ _ _ h => ⟨h.1, fun he => .inl (h.2 he)⟩

end

end ActiveTs.Outbox
