import ActiveTs.Lib.Histories
import ActiveTs.Lib.JsMap

/-! # Queues by key

Tasks of one key run one after the other. A task that joins becomes the tail of its key and waits for the
task that was the tail before it; when it settles it is removed from the tails if it is still there.
Tasks are numbered in the order in which they start; numbers that belong to no queue are left empty. -/

namespace KeyedQueues

open Histories (getElem?_snoc lt_of_getElem?)

universe u v w

/-- Where a task stands. -/
inductive Stage
  /-- Behind the task that was the tail when it joined. -/
  | queued (previous : Option Nat)
  | working
  | settled

structure Task (Key : Type u) where
  key : Key
  stage : Stage

structure Queues (Key : Type u) where
  tails : JsMap Key Nat
  tasks : List (Option (Task Key))

namespace Queues

variable {Key : Type u} {q q' : Queues Key}

def empty : Queues Key := ⟨.empty, []⟩

/-- A task of `key`, and where it stands. -/
def On (q : Queues Key) (key : Key) (id : Nat) (stage : Stage) : Prop :=
  q.tasks[id]? = some (some ⟨key, stage⟩)

theorem On.lt {key : Key} {id : Nat} {stage : Stage} (h : q.On key id stage) : id < q.tasks.length :=
  lt_of_getElem? h

theorem On.unique {key key' : Key} {id : Nat} {stage stage' : Stage} (h : q.On key id stage)
    (h' : q.On key' id stage') : key = key' ∧ stage = stage' := by
  cases Option.some.inj (h.symm.trans h')
  exact ⟨rfl, rfl⟩

/-- The promise that a task waits for is resolved. -/
def Turn (q : Queues Key) (previous : Option Nat) : Prop :=
  ∀ last, previous = some last → ∀ key stage, q.On key last stage → stage = .settled

variable [DecidableEq Key]

/-- A task becomes the tail of its key. -/
def join (q : Queues Key) (key : Key) : Queues Key where
  tails := q.tails.set key q.tasks.length
  tasks := q.tasks ++ [some ⟨key, .queued (q.tails.get? key)⟩]

/-- A number without a task. -/
def pass (q : Queues Key) : Queues Key where
  tails := q.tails
  tasks := q.tasks ++ [none]

def work (q : Queues Key) (key : Key) (id : Nat) : Queues Key where
  tails := q.tails
  tasks := q.tasks.set id (some ⟨key, .working⟩)

/-- A task settles, and is removed if it is the tail of its key. -/
def settle (q : Queues Key) (key : Key) (id : Nat) : Queues Key where
  tails := if q.tails.get? key = some id then q.tails.delete key else q.tails
  tasks := q.tasks.set id (some ⟨key, .settled⟩)

/-- A task that may do something: it works, or it is its turn. -/
inductive Active (q : Queues Key) (key : Key) (id : Nat) : Prop
  | working (h : q.On key id .working)
  | turn {previous : Option Nat} (h : q.On key id (.queued previous)) (hturn : q.Turn previous)

/-- The steps of the queues. -/
inductive Step (q : Queues Key) : Queues Key → Prop
  | same : Step q q
  | join (key : Key) : Step q (q.join key)
  | pass : Step q q.pass
  | work {key : Key} {id : Nat} (h : q.Active key id) : Step q (q.work key id)
  | settle {key : Key} {id : Nat} (h : q.Active key id) : Step q (q.settle key id)

/-- Tasks are queued by key in the order in which they joined. -/
structure Ordered (q : Queues Key) : Prop where
  ordered : ∀ {key c d stage stage'}, q.On key c stage → q.On key d stage' → c < d →
    (∀ previous, stage' ≠ .queued previous) → stage = .settled
  behind : ∀ {key c d stage previous}, q.On key c stage → q.On key d (.queued previous) → c < d →
    stage ≠ .settled → ∃ last, previous = some last ∧ c ≤ last
  previous : ∀ {key d last}, q.On key d (.queued (some last)) → last < d ∧ ∃ stage, q.On key last stage
  tail : ∀ {key last}, q.tails.get? key = some last → ∃ stage, q.On key last stage
  last : ∀ {key c stage}, q.On key c stage → stage ≠ .settled →
    ∃ last, q.tails.get? key = some last ∧ c ≤ last

omit [DecidableEq Key] in
theorem Active.on {key : Key} {id : Nat} (h : q.Active key id) :
    ∃ stage, q.On key id stage ∧ stage ≠ .settled := by
  cases h with
  | working h =>
    refine ⟨_, h, ?_⟩
    exact Stage.noConfusion
  | turn h =>
    refine ⟨_, h, ?_⟩
    exact Stage.noConfusion

/-- Before a task that may do something, the tasks of its key have settled. -/
theorem Ordered.earlier (hq : q.Ordered) {key : Key} {c d : Nat} {stage : Stage}
    (hc : q.On key c stage) (hd : q.Active key d) (hlt : c < d) : stage = .settled := by
  cases hd with
  | working hd =>
    apply hq.ordered hc hd hlt
    exact fun _ => Stage.noConfusion
  | turn hd hturn =>
    by_contra hopen
    obtain ⟨last, rfl, hle⟩ := hq.behind hc hd hlt hopen
    obtain ⟨-, stage', hlast⟩ := hq.previous hd
    obtain rfl := hturn last rfl key stage' hlast
    rcases Nat.lt_or_eq_of_le hle with hlt' | rfl
    · apply hopen
      apply hq.ordered hc hlast hlt'
      exact fun _ => Stage.noConfusion
    · exact hopen (hc.unique hlast).2

/-- Of the tasks of a key, one does something at a time. -/
theorem Ordered.alone (hq : q.Ordered) {key : Key} {c d : Nat} (hc : q.Active key c)
    (hd : q.Active key d) : c = d := by
  obtain ⟨stage, hon, hopen⟩ := hc.on
  obtain ⟨stage', hon', hopen'⟩ := hd.on
  rcases Nat.lt_trichotomy c d with hlt | heq | hgt
  · exact absurd (hq.earlier hon hd hlt) hopen
  · exact heq
  · exact absurd (hq.earlier hon' hc hgt) hopen'

/-! ## Steps -/

theorem Ordered.empty : (empty : Queues Key).Ordered := by
  have hon {key : Key} {id : Nat} {stage : Stage} (h : (Queues.empty : Queues Key).On key id stage) :
      False := by
    rw [On, Queues.empty] at h
    cases h
  constructor
  · exact fun h => (hon h).elim
  · exact fun h => (hon h).elim
  · exact fun h => (hon h).elim
  · intro key last h
    cases h
  · exact fun h => (hon h).elim

theorem Ordered.pass (hq : q.Ordered) : q.pass.Ordered := by
  have hon {key : Key} {id : Nat} {stage : Stage} : q.pass.On key id stage ↔ q.On key id stage := by
    rw [On, Queues.pass, getElem?_snoc]
    split <;> rename_i hid
    · apply iff_of_false
      · intro h
        cases h
      · exact fun h => absurd h.lt (by omega)
    · rfl
  constructor
  · exact fun hc hd hlt hqueued => hq.ordered (hon.mp hc) (hon.mp hd) hlt hqueued
  · exact fun hc hd hlt hopen => hq.behind (hon.mp hc) (hon.mp hd) hlt hopen
  · intro key d last hd
    obtain ⟨hlt, stage, hlast⟩ := hq.previous (hon.mp hd)
    exact ⟨hlt, stage, hon.mpr hlast⟩
  · intro key last h
    obtain ⟨stage, hlast⟩ := hq.tail h
    exact ⟨stage, hon.mpr hlast⟩
  · exact fun hc hopen => hq.last (hon.mp hc) hopen

theorem on_join {key key' : Key} {id : Nat} {stage : Stage} : (q.join key).On key' id stage ↔
    if id = q.tasks.length then key' = key ∧ stage = .queued (q.tails.get? key)
    else q.On key' id stage := by
  rw [On, join, getElem?_snoc]
  split
  · rw [Option.some.injEq, Option.some.injEq, Task.mk.injEq, eq_comm, eq_comm (b := stage)]
  · rfl

theorem Ordered.join (hq : q.Ordered) (key : Key) : (q.join key).Ordered := by
  have hold {key' : Key} {id : Nat} {stage : Stage} (h : q.On key' id stage) :
      (q.join key).On key' id stage := by
    rw [on_join, if_neg (Nat.ne_of_lt h.lt)]
    exact h
  have hcases {key' : Key} {id : Nat} {stage : Stage} (h : (q.join key).On key' id stage) :
      id = q.tasks.length ∧ key' = key ∧ stage = .queued (q.tails.get? key) ∨ q.On key' id stage := by
    rw [on_join] at h
    split at h <;> rename_i hid
    · exact Or.inl ⟨hid, h⟩
    · exact Or.inr h
  have hbound {key' : Key} {id : Nat} {stage : Stage} (h : (q.join key).On key' id stage) :
      id ≤ q.tasks.length := by
    rcases hcases h with ⟨rfl, -, -⟩ | h
    · exact Nat.le_refl _
    · exact Nat.le_of_lt h.lt
  constructor
  · intro key' c d stage stage' hc hd hlt hqueued
    rcases hcases hd with ⟨-, -, rfl⟩ | hd
    · exact absurd rfl (hqueued _)
    · rcases hcases hc with ⟨rfl, -, -⟩ | hc
      · exact absurd hd.lt (by omega)
      · exact hq.ordered hc hd hlt hqueued
  · intro key' c d stage previous hc hd hlt hopen
    rcases hcases hd with ⟨rfl, rfl, hprevious⟩ | hd
    · rcases hcases hc with ⟨rfl, -, -⟩ | hc
      · exact absurd hlt (Nat.lt_irrefl _)
      · obtain ⟨last, hlast, hle⟩ := hq.last hc hopen
        exact ⟨last, (Stage.queued.inj hprevious).trans hlast, hle⟩
    · rcases hcases hc with ⟨rfl, -, -⟩ | hc
      · exact absurd hd.lt (by omega)
      · exact hq.behind hc hd hlt hopen
  · intro key' d last hd
    rcases hcases hd with ⟨rfl, rfl, hprevious⟩ | hd
    · obtain ⟨stage, hlast⟩ := hq.tail (Stage.queued.inj hprevious).symm
      exact ⟨hlast.lt, stage, hold hlast⟩
    · obtain ⟨hlt, stage, hlast⟩ := hq.previous hd
      exact ⟨hlt, stage, hold hlast⟩
  · intro key' last h
    rw [Queues.join, JsMap.get?_set] at h
    split at h <;> rename_i hkey
    · cases h
      exact ⟨_, on_join.mpr (by rw [if_pos rfl]; exact ⟨hkey.symm, rfl⟩)⟩
    · obtain ⟨stage, hlast⟩ := hq.tail h
      exact ⟨stage, hold hlast⟩
  · intro key' c stage hc hopen
    rw [Queues.join, JsMap.get?_set]
    split <;> rename_i hkey
    · exact ⟨_, rfl, hbound hc⟩
    · rcases hcases hc with ⟨-, rfl, -⟩ | hc
      · exact absurd rfl hkey
      · exact hq.last hc hopen

/-- A task that does something works or has settled afterwards. -/
theorem Ordered.advance (hq : q.Ordered) {key : Key} {id : Nat} (h : q.Active key id) {stage : Stage}
    (hstage : ∀ previous, stage ≠ .queued previous)
    (htasks : q'.tasks = q.tasks.set id (some ⟨key, stage⟩))
    (htails : ∀ key', q'.tails.get? key' = q.tails.get? key' ∨
      q'.tails.get? key' = none ∧ key' = key ∧ stage = .settled ∧ q.tails.get? key = some id) :
    q'.Ordered := by
  obtain ⟨stage₀, hself, hopen₀⟩ := h.on
  have hon {key' : Key} {id' : Nat} {stage' : Stage} : q'.On key' id' stage' ↔
      if id' = id then key' = key ∧ stage' = stage else q.On key' id' stage' := by
    rw [On, htasks]
    split <;> rename_i hid
    · rw [hid, List.getElem?_set_self hself.lt, Option.some.injEq, Option.some.injEq, Task.mk.injEq,
        eq_comm, eq_comm (b := stage')]
    · rw [List.getElem?_set_ne (Ne.symm hid)]
      rfl
  have hcases {key' : Key} {id' : Nat} {stage' : Stage} (h' : q'.On key' id' stage') :
      id' = id ∧ key' = key ∧ stage' = stage ∨ id' ≠ id ∧ q.On key' id' stage' := by
    rw [hon] at h'
    split at h' <;> rename_i hid
    · exact Or.inl ⟨hid, h'⟩
    · exact Or.inr ⟨hid, h'⟩
  -- The tasks of a key are the same, and one that is open was open before.
  have hbefore {key' : Key} {id' : Nat} {stage' : Stage} (h' : q'.On key' id' stage')
      (hopen : stage' ≠ .settled) : ∃ stage, q.On key' id' stage ∧ stage ≠ .settled := by
    rcases hcases h' with ⟨rfl, rfl, -⟩ | ⟨-, h'⟩
    · exact ⟨stage₀, hself, hopen₀⟩
    · exact ⟨stage', h', hopen⟩
  have hafter {key' : Key} {id' : Nat} (h' : ∃ stage, q.On key' id' stage) :
      ∃ stage, q'.On key' id' stage := by
    obtain ⟨stage', h'⟩ := h'
    by_cases hid : id' = id
    · subst hid
      exact ⟨stage, hon.mpr (by rw [if_pos rfl]; exact ⟨(h'.unique hself).1, rfl⟩)⟩
    · exact ⟨stage', hon.mpr (by rwa [if_neg hid])⟩
  constructor
  · intro key' c d stage' stage'' hc hd hlt hqueued
    by_contra hopen
    obtain ⟨stage', hc, hopen⟩ := hbefore hc hopen
    rcases hcases hd with ⟨rfl, rfl, -⟩ | ⟨-, hd⟩
    · exact hopen (hq.earlier hc h hlt)
    · exact hopen (hq.ordered hc hd hlt hqueued)
  · intro key' c d stage' previous hc hd hlt hopen
    obtain ⟨stage', hc, hopen⟩ := hbefore hc hopen
    rcases hcases hd with ⟨-, -, hqueued⟩ | ⟨-, hd⟩
    · exact absurd hqueued.symm (hstage previous)
    · exact hq.behind hc hd hlt hopen
  · intro key' d last hd
    rcases hcases hd with ⟨-, -, hqueued⟩ | ⟨-, hd⟩
    · exact absurd hqueued.symm (hstage _)
    · obtain ⟨hlt, hlast⟩ := hq.previous hd
      exact ⟨hlt, hafter hlast⟩
  · intro key' last htail
    rcases htails key' with hsame | ⟨hnone, -⟩
    · exact hafter (hq.tail (hsame ▸ htail))
    · rw [hnone] at htail
      cases htail
  · intro key' c stage' hc hopen
    obtain ⟨stage'', hc₀, hopen₁⟩ := hbefore hc hopen
    obtain ⟨last, htail, hle⟩ := hq.last hc₀ hopen₁
    refine ⟨last, ?_, hle⟩
    rcases htails key' with hsame | ⟨-, rfl, hsettled, hid⟩
    · rw [hsame, htail]
    · cases hid.symm.trans htail
      rcases hcases hc with ⟨-, -, rfl⟩ | ⟨hne, -⟩
      · exact absurd hsettled hopen
      · exact absurd (hq.earlier hc₀ h (Nat.lt_of_le_of_ne hle hne)) hopen₁

theorem Ordered.step (hq : q.Ordered) (h : q.Step q') : q'.Ordered := by
  cases h with
  | same => exact hq
  | join key => exact hq.join key
  | pass => exact hq.pass
  | @work key id h =>
    apply @Ordered.advance _ _ (q.work key id) _ hq key id h .working
    · exact fun _ => Stage.noConfusion
    · rfl
    · exact fun _ => Or.inl rfl
  | @settle key id h =>
    apply @Ordered.advance _ _ (q.settle key id) _ hq key id h .settled
    · exact fun _ => Stage.noConfusion
    · rfl
    · intro key'
      rw [Queues.settle]
      dsimp only
      split <;> rename_i htail
      · rw [JsMap.get?_delete]
        split <;> rename_i hkey
        · exact Or.inr ⟨rfl, hkey.symm, rfl, htail⟩
        · exact Or.inl rfl
      · exact Or.inl rfl

/-! ## Calls -/

section
-- The key that a call has a task of, and where the task stands in each of its phases.
variable {Call : Type v} {Phase : Type w} {keyOf : Call → Option Key} {stageOf : Phase → Option Stage}
  {tails : JsMap Key Nat} {calls : List (Call × Phase)}

omit [DecidableEq Key] in
/-- The tasks of calls that are numbered. -/
def ofCalls (keyOf : Call → Option Key) (stageOf : Phase → Option Stage) (tails : JsMap Key Nat)
    (calls : List (Call × Phase)) : Queues Key where
  tails := tails
  tasks := calls.map fun call => (keyOf call.1).bind fun key => (stageOf call.2).map (Task.mk key)

omit [DecidableEq Key] in
theorem on_ofCalls {key : Key} {id : Nat} {stage : Stage} :
    (ofCalls keyOf stageOf tails calls).On key id stage ↔ ∃ call phase,
      calls[id]? = some (call, phase) ∧ keyOf call = some key ∧ stageOf phase = some stage := by
  rw [On, ofCalls, List.getElem?_map, Option.map_eq_some_iff]
  constructor
  · rintro ⟨⟨call, phase⟩, hcall, htask⟩
    obtain ⟨key', hkey, hstage⟩ := Option.bind_eq_some_iff.mp htask
    obtain ⟨stage', hst, heq⟩ := Option.map_eq_some_iff.mp hstage
    cases heq
    exact ⟨call, phase, hcall, hkey, hst⟩
  · rintro ⟨call, phase, hcall, hkey, hstage⟩
    refine ⟨(call, phase), hcall, ?_⟩
    rw [hkey, hstage]
    rfl

omit [DecidableEq Key] in
/-- A promise is resolved when its call has settled. -/
theorem turn_ofCalls {previous : Option Nat}
    (h : ∀ last call phase, previous = some last → calls[last]? = some (call, phase) →
      ∀ stage, stageOf phase = some stage → stage = .settled) :
    (ofCalls keyOf stageOf tails calls).Turn previous := by
  intro last hlast key stage hon
  obtain ⟨call, phase, hcall, -, hstage⟩ := on_ofCalls.mp hon
  exact h last call phase hlast hcall stage hstage

/-- A call that has no task. -/
theorem step_pass {call : Call} {phase : Phase} (h : keyOf call = none ∨ stageOf phase = none) :
    (ofCalls keyOf stageOf tails calls).Step
      (ofCalls keyOf stageOf tails (calls ++ [(call, phase)])) := by
  have hsame : ofCalls keyOf stageOf tails (calls ++ [(call, phase)]) =
      (ofCalls keyOf stageOf tails calls).pass := by
    rw [Queues.pass, ofCalls, Queues.mk.injEq, List.map_append, List.map_singleton]
    refine ⟨rfl, ?_⟩
    rcases h with h | h
    · rw [h]
      rfl
    · rw [h]
      cases keyOf call <;> rfl
  rw [hsame]
  exact .pass

/-- A call whose task joins its queue. -/
theorem step_join {call : Call} {phase : Phase} {key : Key} (hkey : keyOf call = some key)
    (hphase : stageOf phase = some (.queued (tails.get? key))) :
    (ofCalls keyOf stageOf tails calls).Step
      (ofCalls keyOf stageOf (tails.set key calls.length) (calls ++ [(call, phase)])) := by
  have hsame : ofCalls keyOf stageOf (tails.set key calls.length) (calls ++ [(call, phase)]) =
      (ofCalls keyOf stageOf tails calls).join key := by
    rw [Queues.join, ofCalls, Queues.mk.injEq, List.map_append, List.map_singleton, hkey,
      Option.bind_some, hphase]
    refine ⟨?_, rfl⟩
    rw [ofCalls, List.length_map]
  rw [hsame]
  exact .join key

/-- The tails after a call has gone on; a task that settles is removed. -/
def release (tails : JsMap Key Nat) (key : Option Key) (id : Nat) (settled : Bool) : JsMap Key Nat :=
  match key with
  | some key => if settled && tails.get? key = some id then tails.delete key else tails
  | none => tails

/-- A call whose task goes on. -/
theorem step_set {id : Nat} {call : Call} {phase phase' : Phase}
    (hcall : calls[id]? = some (call, phase))
    (hactive : ∀ key, keyOf call = some key → (ofCalls keyOf stageOf tails calls).Active key id)
    {settled : Bool} (hphase : stageOf phase' = some (if settled then .settled else .working)) :
    (ofCalls keyOf stageOf tails calls).Step
      (ofCalls keyOf stageOf (release tails (keyOf call) id settled) (calls.set id (call, phase'))) := by
  have htasks : (ofCalls keyOf stageOf (release tails (keyOf call) id settled)
      (calls.set id (call, phase'))).tasks = (ofCalls keyOf stageOf tails calls).tasks.set id
        ((keyOf call).bind fun key => (stageOf phase').map (Task.mk key)) :=
    List.map_set
  cases hkey : keyOf call with
  | none =>
    have hself : (ofCalls keyOf stageOf tails calls).tasks[id]? = some none := by
      rw [ofCalls, List.getElem?_map, hcall, Option.map_some, hkey]
      rfl
    obtain ⟨hlt, hself⟩ := List.getElem?_eq_some_iff.mp hself
    rw [hkey, Option.bind_none] at htasks
    conv at htasks => rhs; rw [← hself]
    rw [List.set_getElem_self] at htasks
    have hsame : ofCalls keyOf stageOf (release tails none id settled) (calls.set id (call, phase')) =
        ofCalls keyOf stageOf tails calls := by
      rw [Queues.mk.injEq]
      exact ⟨rfl, htasks⟩
    rw [hsame]
    exact .same
  | some key =>
    rw [hkey, Option.bind_some, hphase] at htasks
    cases settled with
    | true =>
      have hsame : ofCalls keyOf stageOf (release tails (some key) id true) (calls.set id (call, phase')) =
          (ofCalls keyOf stageOf tails calls).settle key id := by
        rw [Queues.settle, Queues.mk.injEq]
        refine ⟨?_, htasks⟩
        simp only [ofCalls, release, Bool.true_and, decide_eq_true_eq]
        congr
      rw [hsame]
      exact .settle (hactive key hkey)
    | false =>
      have hsame : ofCalls keyOf stageOf (release tails (some key) id false) (calls.set id (call, phase')) =
          (ofCalls keyOf stageOf tails calls).work key id := by
        rw [Queues.work, Queues.mk.injEq]
        refine ⟨?_, htasks⟩
        simp only [ofCalls, release, Bool.false_and, Bool.false_eq_true, if_false]
      rw [hsame]
      exact .work (hactive key hkey)

end

end Queues

end KeyedQueues
