import ActiveTs.Lib.Rely
import ActiveTs.Outbox.SearchSync
import Mathlib.Data.List.Infix

/-! # The changes that a task makes

A task knows its own changes of outbox rows and nothing of the others. What an operation does is
told by the kind of changes that it makes: any fact about the changes so far that survives changes
of this kind survives the operation. -/

namespace ActiveTs.Outbox

variable {T D : Type}

/-! ## Presence -/

/-- The row was there and still is. -/
structure Change.IsUpdate (ch : Change D) : Prop where
  before : ch.before.isSome = true
  after : ch.after.isSome = true

def Change.settle (id : String) (present : Option Bool) (ch : Change D) : Option Bool :=
  if ch.id = id then
    if ch.after.isNone then some false
    else if ch.before.isNone then some true
    else present
  else present

/-- Whether the changes inserted or deleted the row last, `none` if they did neither. -/
def presence (id : String) (changes : List (Change D)) : Option Bool :=
  changes.foldl (Change.settle id) none

section
variable {id : String} {l : List (Change D)} {ch : Change D}

theorem presence_concat : presence id (l ++ [ch]) = ch.settle id (presence id l) := by
  rw [presence, List.foldl_append]
  rfl

theorem Change.settle_of_ne {present : Option Bool} (h : ch.id ≠ id) :
    ch.settle id present = present := if_neg h

theorem Change.IsUpdate.settle {present : Option Bool} (h : ch.IsUpdate) :
    ch.settle id present = present := by
  have hbefore := h.before
  have hafter := h.after
  unfold Change.settle
  split
  · rw [if_neg (by simp [Option.isNone_iff_eq_none, Option.isSome_iff_ne_none.mp hafter]),
      if_neg (by simp [Option.isNone_iff_eq_none, Option.isSome_iff_ne_none.mp hbefore])]
  · rfl

theorem presence_concat_of_ne (h : ch.id ≠ id) : presence id (l ++ [ch]) = presence id l := by
  rw [presence_concat, Change.settle_of_ne h]

theorem Change.IsUpdate.presence_concat (h : ch.IsUpdate) :
    presence id (l ++ [ch]) = presence id l := by
  rw [Outbox.presence_concat, h.settle]

theorem presence_removed {before : Option (OutboxEvent D)} :
    presence id (l ++ [⟨id, before, none⟩]) = some false := by
  rw [presence_concat]
  exact if_pos rfl

theorem presence_inserted {event : OutboxEvent D} :
    presence id (l ++ [⟨id, none, some event⟩]) = some true := by
  rw [presence_concat]
  exact if_pos rfl

/-- What has been deleted by other means than insertion stays deleted. -/
theorem presence_false_concat (h : presence id l = some false)
    (hch : ch.IsUpdate ∨ ch.after = none) : presence id (l ++ [ch]) = some false := by
  rcases hch with hch | hch
  · rw [hch.presence_concat, h]
  · rw [presence_concat, h, Change.settle, hch]
    split <;> rfl

theorem presence_isSome_concat (h : (presence id l).isSome = true) :
    (presence id (l ++ [ch])).isSome = true := by
  rw [presence_concat, Change.settle]
  split
  · split
    · rfl
    · split
      · rfl
      · exact h
  · exact h

end

/-! ## The protocol -/

section
variable [DecidableEq T]

def World.own (s : World T D) (t : T) : List (Change D) := (s.log.filter (·.1 = t)).map (·.2)

/-- Each task knows its own changes, the changes tell which rows are there, and ids are used. -/
structure Tracked (g : T → List (Change D)) (s : World T D) : Prop where
  own : ∀ t, g t = s.own t
  present : ∀ id b, presence id (s.log.map (·.2)) = some b → (s.events id).isSome = b
  used : ∀ id, (s.events id).isSome = true → id ∈ s.usedIds
  logged : ∀ x ∈ s.log, x.2.id ∈ s.usedIds

structure Grows (x y : (T → List (Change D)) × World T D) : Prop where
  changes : ∀ t, x.1 t <+: y.1 t
  usedIds : x.2.usedIds ⊆ y.2.usedIds

def protocol : Protocol T (List (Change D)) (World T D) where
  inv := Tracked
  evolves := Grows
  refl _ := ⟨fun _ => List.prefix_rfl, List.Subset.refl _⟩
  trans h h' := ⟨fun t => (h.changes t).trans (h'.changes t), List.Subset.trans h.usedIds h'.usedIds⟩

abbrev Triple {α : Type} (t : T) (P : (T → List (Change D)) → World T D → Prop)
    (p : OutboxTask T D α) (Q : α → (T → List (Change D)) → World T D → Prop)
    (E : OutboxError → (T → List (Change D)) → World T D → Prop) : Prop :=
  protocol.Triple (fun _ => True) t P p Q E

/-- Another task has changed the row. -/
def TouchedByOther (t : T) (id : String) (g : T → List (Change D)) : Prop :=
  ∃ u, u ≠ t ∧ ∃ ch ∈ g u, ch.id = id

theorem kept_touchedByOther (t : T) (id : String) :
    (protocol (D := D)).Kept fun g (_ : World T D) => TouchedByOther t id g := by
  rintro g s g' s' ⟨u, hu, ch, hch, hid⟩ h
  exact ⟨u, hu, ch, (h.changes u).subset hch, hid⟩

theorem kept_used (ids : List String) :
    (protocol (D := D)).Kept fun _ (s : World T D) => ids ⊆ s.usedIds :=
  fun _ _ _ _ h he => List.Subset.trans h he.usedIds

theorem own_concat {s : World T D} {x : T × Change D} {t : T} :
    World.own { s with log := s.log ++ [x] } t = s.own t ++ if x.1 = t then [x.2] else [] := by
  unfold World.own
  rw [List.filter_append, List.map_append]
  congr 1
  by_cases h : x.1 = t
  · rw [if_pos h, List.filter_cons_of_pos (by simpa using h)]
    rfl
  · rw [if_neg h, List.filter_cons_of_neg (by simpa using h)]
    rfl

theorem presence_own {l : List (T × Change D)} {t : T} {id : String}
    (h : ∀ x ∈ l, x.1 ≠ t → x.2.id ≠ id) (present : Option Bool) :
    (l.map (·.2)).foldl (Change.settle id) present =
      ((l.filter (·.1 = t)).map (·.2)).foldl (Change.settle id) present := by
  induction l generalizing present with
  | nil => rfl
  | cons x l ih =>
    have ih := ih (fun y hy => h y (List.mem_cons_of_mem _ hy))
    by_cases hx : x.1 = t
    · rw [List.filter_cons_of_pos (by simpa using hx)]
      exact ih _
    · rw [List.filter_cons_of_neg (by simpa using hx), List.map_cons, List.foldl_cons,
        Change.settle_of_ne (h x List.mem_cons_self hx)]
      exact ih _

/-- A row that no other task has changed is there if the task's own changes say so. -/
theorem Tracked.isSome_of_own {g : T → List (Change D)} {s : World T D} (h : Tracked g s) {t : T}
    {id : String} {b : Bool} (hown : presence id (g t) = some b) :
    (s.events id).isSome = b ∨ TouchedByOther t id g := by
  by_cases hother : ∀ x ∈ s.log, x.1 ≠ t → x.2.id ≠ id
  · refine .inl (h.present id b ?_)
    rw [presence, presence_own hother, ← hown, h.own t]
    rfl
  · push Not at hother
    obtain ⟨x, hx, hne, hid⟩ := hother
    refine .inr ⟨x.1, hne, x.2, ?_, hid⟩
    rw [h.own, World.own]
    exact List.mem_map.mpr ⟨x, List.mem_filter.mpr ⟨hx, by simp⟩, rfl⟩

/-! ## Moves -/

/-- The outbox rows are as they were. -/
structure Same (s s' : World T D) : Prop where
  events : s'.events = s.events
  log : s'.log = s.log
  usedIds : s.usedIds ⊆ s'.usedIds

omit [DecidableEq T] in
theorem Same.refl (s : World T D) : Same s s := ⟨rfl, rfl, List.Subset.refl _⟩

variable {t : T} {g : T → List (Change D)} {s s' : World T D}

theorem Tracked.same (h : Tracked g s) (hs : Same s s') : Tracked g s' where
  own u := by
    rw [h.own, World.own, World.own, hs.log]
  present id b hb := by
    rw [hs.log] at hb
    rw [hs.events]
    exact h.present id b hb
  used id hid := by
    rw [hs.events] at hid
    exact hs.usedIds (h.used id hid)
  logged x hx := by
    rw [hs.log] at hx
    exact hs.usedIds (h.logged x hx)

theorem Tracked.setEvent (h : Tracked g s) (t : T) (id : String) (after : Option (OutboxEvent D)) :
    Tracked (Function.update g t (g t ++ [⟨id, s.events id, after⟩])) (s.setEvent t id after) where
  own u := by
    change _ = World.own { s with log := s.log ++ [(t, ⟨id, s.events id, after⟩)] } u
    rw [own_concat]
    by_cases hu : u = t
    · subst hu
      rw [Function.update_self, if_pos rfl, h.own]
    · rw [Function.update_of_ne hu, if_neg (Ne.symm hu), List.append_nil, h.own]
  present id' b hb := by
    let ch : Change D := ⟨id, s.events id, after⟩
    replace hb : presence id' ((s.log ++ [(t, ch)]).map (·.2)) = some b := hb
    rw [List.map_append] at hb
    replace hb := presence_concat.symm.trans hb
    change (Function.update s.events id after id').isSome = b
    by_cases hid : id' = id
    · subst hid
      rw [Function.update_self]
      simp only [ch, Change.settle, if_true] at hb
      cases after with
      | none => exact Option.some.inj hb
      | some event =>
        by_cases hbefore : (s.events id').isNone = true
        · rw [if_neg (by simp), if_pos hbefore] at hb
          exact Option.some.inj hb
        · rw [if_neg (by simp), if_neg hbefore] at hb
          have hpresent := h.present id' b hb
          rw [← hpresent, Option.isSome_some, eq_comm, Option.isSome_iff_ne_none]
          exact fun hnone => hbefore (Option.isNone_iff_eq_none.mpr hnone)
    · rw [Function.update_of_ne hid]
      exact h.present id' b ((Change.settle_of_ne (Ne.symm hid)).symm.trans hb)
  used id' hid' := by
    change (Function.update s.events id after id').isSome = true at hid'
    by_cases hid : id' = id
    · rw [hid]
      exact List.mem_cons_self
    · rw [Function.update_of_ne hid] at hid'
      exact List.mem_cons_of_mem _ (h.used id' hid')
  logged x hx := by
    rcases List.mem_append.mp hx with hx | hx
    · exact List.mem_cons_of_mem _ (h.logged x hx)
    · cases List.mem_singleton.mp hx
      exact List.mem_cons_self

theorem moves_same (hinv : (protocol (D := D)).inv g s) (h : Same s s') :
    protocol.Moves t g s g s' :=
  ⟨Tracked.same hinv h, fun _ _ => rfl, fun _ => List.prefix_rfl, h.usedIds⟩

theorem moves_advance (hinv : (protocol (D := D)).inv g s) (n : Nat) :
    protocol.Moves t g s g (s.advance n) :=
  moves_same hinv ⟨rfl, rfl, List.Subset.refl _⟩

/-- A step that makes at most one change, of the given kind. -/
def Effect (t : T) (Z : Change D → Prop) (s s' : World T D) : Prop :=
  Same s s' ∨ ∃ id after, Same (s.setEvent t id after) s' ∧ Z ⟨id, s.events id, after⟩

omit [DecidableEq T] in
theorem Effect.of_advance {Z : Change D → Prop} {n : Nat} (h : Effect t Z (s.advance n) s') :
    Effect t Z s s' := by
  rcases h with h | ⟨id, after, h, hz⟩
  · exact .inl ⟨h.events, h.log, h.usedIds⟩
  · exact .inr ⟨id, after, ⟨h.events, h.log, h.usedIds⟩, hz⟩

/-- The own changes after a step that makes at most one change, of the given kind. -/
def Extends (Z : Change D → Prop) (l l' : List (Change D)) : Prop :=
  l' = l ∨ ∃ ch, Z ch ∧ l' = l ++ [ch]

theorem Effect.moves {Z : Change D → Prop} (h : Effect t Z s s')
    (hinv : (protocol (D := D)).inv g s) :
    ∃ g', protocol.Moves t g s g' s' ∧ Extends Z (g t) (g' t) := by
  rcases h with h | ⟨id, after, h, hz⟩
  · exact ⟨g, moves_same hinv h, .inl rfl⟩
  · refine ⟨_, ⟨(hinv.setEvent t id after).same h, fun u hu => Function.update_of_ne hu ..,
      fun u => ?_, fun _ hx => h.usedIds (List.mem_cons_of_mem _ hx)⟩, ?_⟩
    · change g u <+: Function.update g t _ u
      by_cases hu : u = t
      · subst hu
        rw [Function.update_self]
        exact List.prefix_append _ _
      · rw [Function.update_of_ne hu]
    · rw [Function.update_self]
      exact .inr ⟨_, hz, rfl⟩

/-- An assertion that the task keeps as long as it makes changes of one kind only. -/
structure Respects (t : T) (Z : Change D → Prop) (A : (T → List (Change D)) → World T D → Prop) :
    Prop where
  stable : protocol.Stable t A
  step : ∀ {g s g' s'}, A g s → protocol.Moves t g s g' s' → Extends Z (g t) (g' t) → A g' s'

namespace Respects

variable {Z Z' : Change D → Prop} {A B : (T → List (Change D)) → World T D → Prop}

theorem own {I : List (Change D) → Prop} (h : ∀ l ch, I l → Z ch → I (l ++ [ch])) :
    Respects t Z fun g _ => I (g t) where
  stable := .own I
  step := by
    rintro g s g' s' hI - (hl | ⟨ch, hch, hl⟩)
    · rw [hl]
      exact hI
    · rw [hl]
      exact h _ ch hI hch

theorem kept (h : protocol.Kept A) : Respects t Z A where
  stable := h.stable
  step hA hmoves _ := h _ _ _ _ hA hmoves.evolves

theorem and (hA : Respects t Z A) (hB : Respects t Z B) :
    Respects t Z fun g s => A g s ∧ B g s where
  stable := hA.stable.and hB.stable
  step h hmoves hl := ⟨hA.step h.1 hmoves hl, hB.step h.2 hmoves hl⟩

theorem or (hA : Respects t Z A) (hB : Respects t Z B) :
    Respects t Z fun g s => A g s ∨ B g s where
  stable g s g' s' hinv h hr :=
    h.imp (hA.stable g s g' s' hinv · hr) (hB.stable g s g' s' hinv · hr)
  step h hmoves hl := h.imp (hA.step · hmoves hl) (hB.step · hmoves hl)

theorem all {κ : Sort*} {A : κ → (T → List (Change D)) → World T D → Prop}
    (h : ∀ k, Respects t Z (A k)) : Respects t Z fun g s => ∀ k, A k g s where
  stable g s g' s' hinv hA hr k := (h k).stable g s g' s' hinv (hA k) hr
  step hA hmoves hl k := (h k).step (hA k) hmoves hl

theorem imp {q : Prop} (h : q → Respects t Z A) : Respects t Z fun g s => q → A g s where
  stable g s g' s' hinv hA hr hq := (h hq).stable g s g' s' hinv (hA hq) hr
  step hA hmoves hl hq := (h hq).step (hA hq) hmoves hl

theorem const (P : Prop) : Respects t Z fun (_ : T → List (Change D)) (_ : World T D) => P :=
  kept (.const P)

theorem mono (h : Respects t Z A) (hZ : ∀ ch, Z' ch → Z ch) : Respects t Z' A where
  stable := h.stable
  step hA hmoves hl := h.step hA hmoves (hl.imp_right fun ⟨ch, hch, hl⟩ => ⟨ch, hZ ch hch, hl⟩)

/-- What updates and changes of other rows do not change. -/
theorem presence (id : String) (b : Option Bool) (hZ : ∀ ch, Z ch → ch.IsUpdate ∨ ch.id ≠ id) :
    Respects t Z fun g (_ : World T D) => presence id (g t) = b := by
  refine own (I := fun l => Outbox.presence id l = b) fun l ch h hch => ?_
  rcases hZ ch hch with hch | hch
  · rw [hch.presence_concat, h]
  · rw [presence_concat_of_ne hch, h]

/-- What is deleted stays deleted where nothing is inserted. -/
theorem presence_false (id : String)
    (hZ : ∀ ch, Z ch → ch.IsUpdate ∨ ch.after = none ∨ ch.id ≠ id) :
    Respects t Z fun g (_ : World T D) => Outbox.presence id (g t) = some false := by
  refine own (I := fun l => Outbox.presence id l = some false) fun l ch h hch => ?_
  rcases hZ ch hch with hch | hch | hch
  · exact presence_false_concat h (.inl hch)
  · exact presence_false_concat h (.inr hch)
  · rw [presence_concat_of_ne hch, h]

theorem presence_isSome (id : String) :
    Respects t Z fun g (_ : World T D) => (Outbox.presence id (g t)).isSome = true :=
  own (I := fun l => (Outbox.presence id l).isSome = true) fun _ _ h _ => presence_isSome_concat h

end Respects

/-! ## Kinds of changes -/

/-- The task makes changes of one kind only, and its result has the property `V`. -/
def Makes {α : Type} (t : T) (Z : Change D → Prop) (p : OutboxTask T D α) (V : α → Prop) : Prop :=
  ∀ A, Respects t Z A → Triple t A p (fun a g s => A g s ∧ V a) fun _ => A

namespace Makes

variable {α β : Type} {Z Z' : Change D → Prop} {p : OutboxTask T D α} {V V' : α → Prop}
  {W : β → Prop}

theorem pure {a : α} (h : V a) : Makes t Z (pure a : OutboxTask T D α) V :=
  fun _ _ => .pure fun _ _ _ hA => ⟨hA, h⟩

theorem throw (e : OutboxError) : Makes t Z (throw e : OutboxTask T D α) V :=
  fun _ _ => .throw fun _ _ _ hA => hA

theorem bind {f : α → OutboxTask T D β} (h : Makes t Z p V) (hf : ∀ a, V a → Makes t Z (f a) W) :
    Makes t Z (p >>= f) W :=
  fun A hA => .bind (h A hA) fun a g s hinv ha => hf a ha.2 A hA g s hinv ha.1

theorem weaken (h : Makes t Z p V) (hZ : ∀ ch, Z ch → Z' ch) (hV : ∀ a, V a → V' a) :
    Makes t Z' p V' :=
  fun A hA => (h A (hA.mono hZ)).weaken (fun _ _ _ h => h)
    (fun a _ _ _ h => ⟨h.1, hV a h.2⟩) fun _ _ _ _ h => h

theorem anyResult (h : Makes t Z p V) : Makes t Z p fun _ => True :=
  h.weaken (fun _ h => h) fun _ _ => trivial

theorem attempt (h : Makes t Z p V) : Makes t Z p.attempt fun r => ∀ a, r = .ok a → V a := by
  intro A hA
  have hattempt : Triple t A p.attempt _ fun _ => A := Protocol.Triple.attempt (h A hA)
  refine hattempt.weaken (fun _ _ _ h => h) (fun r _ _ _ h => ?_) fun _ _ _ _ h => h
  cases r with
  | ok a => exact ⟨h.1, fun a' ha => Except.ok.inj ha ▸ h.2⟩
  | error e => exact ⟨h, fun _ ha => (nomatch ha)⟩

theorem atomically {f : Choice D → World T D → World T D × Except OutboxError α}
    (h : ∀ c s, Effect t Z s (f c s).1 ∧ ∀ a, (f c s).2 = .ok a → V a) :
    Makes t Z (Prog.atomically f) V := by
  intro A hA
  refine .atomically (fun c g s hinv hg _ => ?_) (fun a => hA.stable.and (Protocol.Kept.const _).stable)
    fun _ => hA.stable
  obtain ⟨heffect, hok⟩ := h c s
  obtain ⟨g', hmoves, hl⟩ := heffect.moves hinv
  have hg' := hA.step hg hmoves hl
  exact ⟨g', hmoves, fun a ha => ⟨hg', hok a ha⟩, fun _ _ => hg'⟩

theorem storeCall {f : World T D → World T D × Except OutboxError α}
    (h : ∀ s, Effect t Z s (f s).1 ∧ ∀ a, (f s).2 = .ok a → V a) :
    Makes t Z (Outbox.storeCall f) V := by
  refine atomically fun c s => ?_
  have hadvance : Same s (s.advance c.tick) := ⟨rfl, rfl, List.Subset.refl _⟩
  obtain ⟨heffect, hok⟩ := h (s.advance c.tick)
  replace heffect := heffect.of_advance
  cases c.outcome with
  | ok => exact ⟨heffect, hok⟩
  | uncertain => exact ⟨heffect, fun _ ha => (nomatch ha)⟩
  | failed => exact ⟨.inl hadvance, fun _ ha => (nomatch ha)⟩
  | late => exact ⟨.inl hadvance, fun _ ha => (nomatch ha)⟩

theorem read {f : World T D → Except OutboxError α} :
    Makes t Z (Outbox.storeCall fun s => (s, f s)) fun _ => True :=
  storeCall fun s => ⟨.inl (.refl s), fun _ _ => trivial⟩

theorem step {enabled : Choice D → World T D → Bool} {update : Choice D → World T D → World T D}
    {next : Choice D → World T D → OutboxTask T D α} (h : ∀ c s, Same s (update c s))
    (hnext : ∀ c s, Makes t Z (next c s) V) : Makes t Z (.step enabled update next) V :=
  fun A hA => .step (fun _ => A) (fun c g s hinv hg _ _ =>
      have hmoves := moves_same hinv (h c s)
      ⟨g, hmoves, hA.step hg hmoves (.inl rfl)⟩) (fun _ => hA.stable) fun c s => hnext c s A hA

end Makes

/-- A transaction commits, is rolled back, or commits and fails. -/
theorem triple_transaction {α : Type} {body : OutboxTask T D α}
    {A : (T → List (Change D)) → World T D → Prop}
    {Q : α → (T → List (Change D)) → World T D → Prop} {Z : Change D → Prop}
    {E : OutboxError → (T → List (Change D)) → World T D → Prop} (hA : Respects t Z A)
    (h : Triple t A body Q fun _ _ _ => True) (hQ : ∀ a, protocol.Stable t (Q a))
    (hE : ∀ e, protocol.Stable t (E e)) (hrollback : ∀ e g s, A g s → E e g s)
    (hcommit : ∀ a g s, Q a g s → E .store g s) : Triple t A (transaction body) Q E := by
  refine .atomically (fun c g s hinv hg _ => ?_) hQ hE
  have hmoves := moves_advance (t := t) hinv c.tick
  have hg' := hA.step hg hmoves (.inl rfl)
  have hback : ∀ r : Except OutboxError α, (∀ a, r ≠ .ok a) → ∃ g', protocol.Moves t g s g'
      (s.advance c.tick) ∧ (∀ a, r = .ok a → Q a g' (s.advance c.tick)) ∧
        ∀ e, r = .error e → E e g' (s.advance c.tick) :=
    fun r hr => ⟨g, hmoves, fun a ha => absurd ha (hr a), fun e _ => hrollback e _ _ hg'⟩
  split
  · next s' a hrun =>
    obtain ⟨g', hmoves', hok, -⟩ := Protocol.Safe.runAlone (fun _ => trivial) hmoves.inv
      (h g _ hmoves.inv hg') hrun
    have hdone := hok a rfl
    have hcommitted : protocol.Moves t g s g' s' := hmoves.trans hmoves'
    split
    · exact ⟨g', hcommitted, fun a' ha' => Except.ok.inj ha' ▸ hdone, fun _ he => (nomatch he)⟩
    · refine ⟨g', hcommitted, fun _ ha' => (nomatch ha'), fun e he => ?_⟩
      cases he
      exact hcommit a _ _ hdone
    · exact hback _ fun _ ha' => (nomatch ha')
  · exact hback _ fun _ ha' => (nomatch ha')
  · exact hback _ fun _ ha' => (nomatch ha')

/-- The answer to a conflict has to hold where the task may end in one. -/
theorem triple_orConflict {α : Type} {answer : α} {p : OutboxTask T D α}
    {A : (T → List (Change D)) → World T D → Prop}
    {Q : α → (T → List (Change D)) → World T D → Prop}
    {E : OutboxError → (T → List (Change D)) → World T D → Prop} (h : Triple t A p Q E)
    (hE : ∀ e g s, e.isConflict = true → E e g s → Q answer g s) :
    Triple t A (orConflict answer p) Q E := by
  refine .bind (Protocol.Triple.attempt h) fun r => ?_
  cases r with
  | ok a => exact .pure fun _ _ _ hQ => hQ
  | error e =>
    exact .ite (fun he => .pure fun g s _ h => hE e g s he h) fun _ => .throw fun _ _ _ h => h

namespace Makes

variable {α β : Type} {Z Z' : Change D → Prop} {p : OutboxTask T D α} {V V' : α → Prop}

theorem transaction (h : Makes t Z p V) : Makes t Z (Outbox.transaction p) V :=
  fun A hA => triple_transaction hA ((h A hA).weaken (fun _ _ _ h => h) (fun _ _ _ _ h => h)
    fun _ _ _ _ _ => trivial) (fun a => hA.stable.and (Protocol.Kept.const (V a)).stable)
    (fun _ => hA.stable) (fun _ _ _ h => h) fun _ _ _ h => h.1

theorem ite {c : Prop} [Decidable c] {q : OutboxTask T D α} (hp : c → Makes t Z p V)
    (hq : ¬ c → Makes t Z q V) : Makes t Z (if c then p else q) V := by
  split
  · next hc => exact hp hc
  · next hc => exact hq hc

theorem orConflict {answer : α} (h : Makes t Z p V) (hanswer : V answer) :
    Makes t Z (Outbox.orConflict answer p) V :=
  fun A hA => triple_orConflict (h A hA) fun _ _ _ _ hA => ⟨hA, hanswer⟩

theorem eachSettled {f : α → OutboxTask T D Unit} {l : List α}
    (h : ∀ a ∈ l, Makes t Z (f a) fun _ => True) :
    Makes t Z (Outbox.eachSettled f l) fun _ => True := by
  induction l with
  | nil => exact .pure trivial
  | cons a rest ih =>
    refine .bind (h a List.mem_cons_self).attempt.anyResult fun r _ => ?_
    refine .bind (ih fun b hb => h b (List.mem_cons_of_mem _ hb)) fun _ _ => ?_
    cases r with
    | ok u => exact .pure trivial
    | error e => exact .throw e

end Makes

/-! ## The operations -/

section
variable {Z : Change D → Prop} {mode : StoreMode}

theorem makes_now : Makes t Z (now : OutboxTask T D Nat) fun _ => True :=
  .atomically fun _ _ => ⟨.inl ⟨rfl, rfl, List.Subset.refl _⟩, fun _ _ => trivial⟩

theorem makes_currentOutboxEvent (id : String) :
    Makes t Z (currentOutboxEvent id : OutboxTask T D _) fun _ => True := .read

theorem makes_append (event : OutboxEvent D) :
    Makes t (fun ch => ch = ⟨event.id, none, some event⟩) (append t event) fun _ => True := by
  refine .storeCall fun s => ⟨?_, fun _ _ => trivial⟩
  unfold World.create
  split
  · exact .inl (.refl s)
  · next h =>
    refine .inr ⟨_, _, .refl _, ?_⟩
    rw [Option.not_isSome_iff_eq_none.mp h]

theorem makes_updateEvent (current next : OutboxEvent D) :
    Makes t Change.IsUpdate (updateEvent mode t current next) fun _ => True := by
  refine .storeCall fun s => ⟨?_, fun _ _ => trivial⟩
  unfold World.update
  split
  · exact .inl (.refl s)
  · next stored h =>
    split
    · exact .inl (.refl s)
    · exact .inr ⟨_, _, .refl _, by rw [h]; rfl, rfl⟩

theorem makes_deleteEvent (current : OutboxEvent D) (expectedVersion : Option Nat) :
    Makes t (fun ch : Change D => ch.id = current.id ∧ ch.after = none)
      (storeCall fun s => s.delete t current.id expectedVersion) fun _ => True := by
  refine .storeCall fun s => ⟨?_, fun _ _ => trivial⟩
  unfold World.delete
  split
  · split
    · exact .inl (.refl s)
    · exact .inr ⟨_, _, .refl _, rfl, rfl⟩
  · split
    · exact .inl (.refl s)
    · exact .inr ⟨_, _, .refl _, rfl, rfl⟩

variable [DecidableEq D]

theorem makes_isLeaseCurrent (event : OutboxEvent D) :
    Makes t Z (isLeaseCurrent event : OutboxTask T D Bool) fun _ => True := by
  refine .bind (makes_currentOutboxEvent _) fun current _ => ?_
  split
  · exact .pure trivial
  · exact .bind makes_now fun _ _ => .pure trivial

/-- The event is the given one under a lease. -/
def IsLeaseOf (event leased : OutboxEvent D) : Prop :=
  leased.id = event.id ∧ leased.leaseToken.isSome = true

theorem isLeaseOf_withOutboxLease {event current : OutboxEvent D} (token : String)
    (expiresAt : Nat) (h : isOutboxSnapshotCurrent current event = true) :
    IsLeaseOf event (withOutboxLease current token expiresAt) := by
  obtain rfl : current = event := of_decide_eq_true h
  exact ⟨rfl, rfl⟩

theorem makes_claimOutboxLease (event : OutboxEvent D) (token : String) (expiresAt now : Nat) :
    Makes t Change.IsUpdate (claimOutboxLease mode t event token expiresAt now) fun claim =>
      ∀ claimed, claim.claimed = some claimed → IsLeaseOf event claimed := by
  have hrun : Makes t Change.IsUpdate (claimRun mode t event token expiresAt now) fun claim =>
      ∀ claimed, claim.claimed = some claimed → IsLeaseOf event claimed := by
    refine .bind (makes_currentOutboxEvent _) fun found _ => ?_
    split
    · exact .pure fun _ h => (nomatch h)
    · next current h =>
      refine .bind (makes_updateEvent _ _) fun _ _ => .pure fun claimed hclaimed => ?_
      cases hclaimed
      have hclaimable := (Option.filter_eq_some_iff.mp h).2
      simp only [isClaimable, Bool.and_eq_true] at hclaimable
      exact isLeaseOf_withOutboxLease token expiresAt hclaimable.1.2
  exact .ite (fun _ => hrun) fun _ => hrun.transaction

theorem makes_renewLease (event : OutboxEvent D) :
    Makes t Change.IsUpdate (renewLease mode t event) fun renewed =>
      ∀ e, renewed = some e → IsLeaseOf event e := by
  unfold renewLease
  split
  · exact .throw _
  · next token _ =>
    refine .bind makes_now fun now _ => .orConflict ?_ fun _ h => (nomatch h)
    have hrun : ∀ expiresAt, Makes t Change.IsUpdate (renewRun mode t event token expiresAt now)
        fun renewed => ∀ e, renewed = some e → IsLeaseOf event e := by
      intro expiresAt
      refine .bind (makes_currentOutboxEvent _) fun found _ => ?_
      split
      · exact .pure fun _ h => (nomatch h)
      · next current h =>
        refine .bind (makes_updateEvent _ _) fun _ _ => .pure fun e he => ?_
        cases he
        have hheld := (Option.filter_eq_some_iff.mp h).2
        simp only [isLeaseHeld, Option.any_some, Bool.and_eq_true] at hheld
        exact isLeaseOf_withOutboxLease token expiresAt hheld.1
    exact .ite (fun _ => hrun _) fun _ => .ite (fun _ => (hrun _).transaction) fun _ => .throw _

omit [DecidableEq D] in
theorem makes_releaseRun (events : List (OutboxEvent D)) :
    Makes t Change.IsUpdate (releaseRun mode t events) fun _ => True := by
  induction events with
  | nil => exact .pure trivial
  | cons event rest ih =>
    refine .ite (fun _ => .bind (makes_currentOutboxEvent _) fun current _ => ?_) fun _ => ih
    split
    · exact ih
    · exact .bind (.orConflict (makes_updateEvent _ _) trivial) fun _ _ => ih

omit [DecidableEq D] in
theorem makes_release (events : List (OutboxEvent D)) :
    Makes t Change.IsUpdate (release mode t events) fun _ => True :=
  .ite (fun _ => .eachSettled fun event _ => (makes_releaseRun [event]).transaction)
    fun _ => makes_releaseRun events

/-- A failure of an event without a lease. -/
def Unleased (failures : List (DeliveryFailure D)) : Prop :=
  ∃ failure ∈ failures, ∃ event, failure.event = some event ∧ event.leaseToken = none

omit [DecidableEq D] in
theorem makes_settled (disposition : Disposition) (failure : DeliveryFailure D) :
    Makes t Z (disposition.settled failure : OutboxTask T D _) fun _ => True := by
  cases disposition with
  | retry =>
    unfold Disposition.settled
    cases outboxRetryEvent failure with
    | none => exact .throw _
    | some next => exact .pure trivial
  | deadLetter =>
    unfold Disposition.settled
    cases outboxDeadLetterEvent failure with
    | none => exact .throw _
    | some next => exact .pure trivial

/-- Leased events are only updated; an event without a lease may be put back. -/
theorem makes_settleRun (disposition : Disposition) (failures : List (DeliveryFailure D)) :
    Makes t (fun ch => ch.IsUpdate ∨ Unleased failures) (settleRun mode t disposition failures)
      fun _ => True := by
  induction failures with
  | nil => exact .pure trivial
  | cons failure rest ih =>
    have ih : Makes t (fun ch => ch.IsUpdate ∨ Unleased (failure :: rest))
        (settleRun mode t disposition rest) fun _ => True := by
      refine ih.weaken (fun ch h => h.imp_right ?_) fun _ h => h
      rintro ⟨f, hf, h⟩
      exact ⟨f, List.mem_cons_of_mem _ hf, h⟩
    unfold settleRun
    split
    · exact .throw _
    · next source hsource =>
      refine .bind (makes_currentOutboxEvent _) fun current _ => ?_
      split
      · refine .ite (fun hunleased => ?_) fun _ => ih
        refine .bind (makes_settled _ _) fun next _ => .bind (V := fun _ => True) ?_ fun _ _ => ih
        refine (makes_append next).weaken (fun _ _ => .inr ?_) fun _ h => h
        exact ⟨failure, List.mem_cons_self, source, hsource,
          Option.isNone_iff_eq_none.mp hunleased⟩
      · refine .ite (fun _ => ?_) fun _ => ih
        refine .bind (makes_settled _ _) fun next _ => .bind (V := fun _ => True) ?_ fun _ _ => ih
        exact (makes_updateEvent _ next).weaken (fun _ h => .inl h) fun _ h => h

theorem makes_settleDeliveryFailures (disposition : Disposition)
    (failures : List (DeliveryFailure D)) :
    Makes t (fun ch => ch.IsUpdate ∨ Unleased failures)
      (settleDeliveryFailures mode t disposition failures) fun _ => True := by
  refine .ite (fun _ => .throw _) fun _ => .ite (fun _ => .eachSettled fun failure hfailure => ?_)
    fun _ => .ite (fun _ => (makes_settleRun _ _).transaction) fun _ => makes_settleRun _ _
  refine (makes_settleRun disposition [failure]).transaction.weaken
    (fun ch h => h.imp_right ?_) fun _ h => h
  rintro ⟨f, hf, h⟩
  cases List.mem_singleton.mp hf
  exact ⟨_, hfailure, h⟩

/-! ## Acknowledgement -/

/-- `ack` puts deleted rows back when it fails. -/
def StoreMode.recoverDeletes (mode : StoreMode) : Bool :=
  !mode.eachInTransaction && !mode.managementTransactions

/-- The changes of an acknowledgement. -/
def OfAck (recoverDeletes : Bool) (events : List (OutboxEvent D)) (ch : Change D) : Prop :=
  (∃ event ∈ events, ch.id = event.id) ∧ (recoverDeletes = true ∨ ch.after = none)

theorem makes_ackChecks (now : Nat) (batch : List (OutboxEvent D)) :
    Makes t Z (ackChecks now batch : OutboxTask T D _) fun r =>
      ∀ currentEvents, r = some currentEvents → currentEvents = batch := by
  induction batch with
  | nil =>
    refine .pure fun currentEvents h => ?_
    cases h
    rfl
  | cons event rest ih =>
    refine .bind (makes_currentOutboxEvent _) fun current _ => ?_
    split
    · exact .pure fun _ h => (nomatch h)
    · next current h =>
      refine .bind ih fun r hr => .pure fun currentEvents hevents => ?_
      obtain ⟨rest', hrest', rfl⟩ := Option.map_eq_some_iff.mp hevents
      have hcurrent : isOutboxSnapshotCurrent current event = true := by
        have hackable := (Option.filter_eq_some_iff.mp h).2
        unfold isAckable at hackable
        split at hackable
        · simp only [isLeaseHeld, Option.any_some, Bool.and_eq_true] at hackable
          exact hackable.1
        · exact (Bool.and_eq_true_iff.mp hackable).2
      obtain rfl : current = event := of_decide_eq_true hcurrent
      rw [hr rest' hrest']

omit [DecidableEq D] in
theorem makes_reinsertDeletedEvent {events : List (OutboxEvent D)} {event : OutboxEvent D}
    (h : event ∈ events) :
    Makes t (OfAck true events) (reinsertDeletedEvent t event) fun _ => True := by
  refine .bind (makes_currentOutboxEvent _) fun current _ => .ite (fun _ => ?_) fun _ =>
    .pure trivial
  refine (makes_append event).weaken (fun ch hch => ?_) fun _ h => h
  cases hch
  exact ⟨⟨event, h, rfl⟩, .inl rfl⟩

omit [DecidableEq D] in
theorem makes_reinsertDeletedEvents {events : List (OutboxEvent D)} (deleted : List (OutboxEvent D))
    (hdeleted : deleted ⊆ events) :
    Makes t (OfAck true events) (reinsertDeletedEvents t deleted) fun _ => True := by
  induction deleted with
  | nil => exact .pure trivial
  | cons event rest ih =>
    have hput := makes_reinsertDeletedEvent (t := t) (hdeleted List.mem_cons_self)
    exact .bind hput.attempt.anyResult fun _ _ => .bind (ih (List.cons_subset.mp hdeleted).2)
      fun _ _ => .pure trivial

omit [DecidableEq D] in
theorem makes_ackDeletes {events : List (OutboxEvent D)} (recoverDeletes : Bool)
    (batch deleted : List (OutboxEvent D)) (hbatch : batch ⊆ events) (hdeleted : deleted ⊆ events) :
    Makes t (OfAck recoverDeletes events) (ackDeletes mode t recoverDeletes batch deleted)
      fun acknowledged => recoverDeletes = false → acknowledged = true := by
  induction batch generalizing deleted with
  | nil => exact .pure fun _ => rfl
  | cons current rest ih =>
    obtain ⟨hcurrent, hrest⟩ := List.cons_subset.mp hbatch
    have hdeleted' : deleted ++ [current] ⊆ events :=
      List.append_subset.mpr ⟨hdeleted, List.cons_subset.mpr ⟨hcurrent, List.nil_subset _⟩⟩
    refine .bind (V := fun _ => True) ?_ fun result _ => ?_
    · refine Makes.anyResult (.attempt ((makes_deleteEvent current _).weaken ?_ fun _ h => h))
      exact fun ch h => ⟨⟨current, hcurrent, h.1⟩, .inr h.2⟩
    · cases result with
      | ok u => exact ih _ hrest hdeleted'
      | error e =>
        refine .ite (fun hrecover => ?_) fun _ => .throw e
        subst hrecover
        refine .ite (fun _ => ?_) fun _ => ?_
        · exact .bind (makes_reinsertDeletedEvents deleted hdeleted) fun _ _ =>
            .ite (fun _ => .pure fun h => (nomatch h)) fun _ => .throw _
        · exact .bind (makes_reinsertDeletedEvents _ hdeleted') fun _ _ =>
            .ite (fun _ => .throw _) fun _ => .throw _

theorem makes_ackRun (recoverDeletes : Bool) (events : List (OutboxEvent D)) (now : Nat) :
    Makes t (OfAck recoverDeletes events) (ackRun mode t recoverDeletes events now)
      fun _ => True := by
  refine .bind (makes_ackChecks now events) fun r hr => ?_
  cases r with
  | none => exact .pure trivial
  | some currentEvents =>
    rw [hr currentEvents rfl]
    exact (makes_ackDeletes _ _ _ (List.Subset.refl _) (List.nil_subset _)).anyResult

theorem makes_ackEach (events : List (OutboxEvent D)) :
    Makes t (OfAck false events) (ackEach mode t events) fun _ => True := by
  induction events with
  | nil => exact .pure trivial
  | cons event rest ih =>
    have ih : Makes t (OfAck false (event :: rest)) (ackEach mode t rest) fun _ => True := by
      refine ih.weaken (fun ch h => ⟨?_, h.2⟩) fun _ h => h
      obtain ⟨e, he, hid⟩ := h.1
      exact ⟨e, List.mem_cons_of_mem _ he, hid⟩
    refine .bind makes_now fun now _ => .bind (.orConflict (V := fun _ => True) ?_ trivial)
      fun _ _ => .ite (fun _ => ih) fun _ => .pure trivial
    refine (makes_ackRun false [event] now).transaction.weaken (fun ch h => ⟨?_, h.2⟩) fun _ h => h
    obtain ⟨e, he, hid⟩ := h.1
    cases List.mem_singleton.mp he
    exact ⟨_, List.mem_cons_self, hid⟩

theorem makes_ack (events : List (OutboxEvent D)) :
    Makes t (OfAck mode.recoverDeletes events) (ack mode t events) fun _ => True := by
  unfold ack
  split
  · exact (makes_ackEach events).weaken (fun ch h => ⟨h.1, .inr (h.2.resolve_left (by simp))⟩)
      fun _ h => h
  · next heach =>
    refine .bind makes_now fun now _ => ?_
    split
    · refine .orConflict ?_ trivial
      exact (makes_ackRun false events now).transaction.weaken
        (fun ch h => ⟨h.1, .inr (h.2.resolve_left (by simp))⟩) fun _ h => h
    · next hmanaged =>
      have hrecover : mode.recoverDeletes = true := by simp [StoreMode.recoverDeletes, heach, hmanaged]
      rw [hrecover]
      exact makes_ackRun true events now

end

end

end ActiveTs.Outbox
