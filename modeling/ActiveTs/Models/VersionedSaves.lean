import ActiveTs.Lib.Except
import ActiveTs.Lib.Rely
import ActiveTs.Models.Saves
import Mathlib.Data.List.Basic

/-! # Versioned saves lose no update

The states of the row are numbered by their versions, so the expected version of a write names the
state that its instance stands on, and the store takes the write only in that state. -/

namespace ActiveTs.Models

variable {T I D : Type}

/-! ## The invariant -/

/-- A write replaced the state that the writer's instance stood on, and a save left the next
version. -/
def Write.Good (w : Write T D) : Prop :=
  w.replaced = some w.base ∧
    match w.kind with
    | .save => ∃ v row, w.base.version = some v ∧ w.written = some row ∧ row.version = some (v + 1)
    | .delete => w.written = none

def World.saves (s : World T I D) : List (Write T D) := s.writes.filter (·.kind = .save)

/-- The states of a row are numbered from the version `v₀` on, and instances stand on states. -/
structure Inv (v₀ : Int) (s : World T I D) : Prop where
  numbered : ∀ (k : Nat) row, s.states[k]? = some row → row.version = some (v₀ + k)
  current : ∀ row, s.row = some row → s.states.getLast? = some row
  models : ∀ i m, s.models i = some m → m.persisted = true →
    m.base ∈ s.states ∧ m.persistedVersion = m.base.version
  writes : ∀ w ∈ s.writes, w.Good
  count : s.states.length = s.saves.length + 1

namespace Inv

variable {v₀ : Int} {s : World T I D}

theorem init {row : Row D} (h : row.version = some v₀) :
    Inv v₀ (World.init row : World T I D) where
  numbered k r hr := by
    cases k with
    | zero =>
      cases hr
      simpa using h
    | succ k => simp [World.init] at hr
  current r hr := hr
  models i m hm := nomatch hm
  writes w hw := nomatch hw
  count := rfl

theorem version (h : Inv v₀ s) {row : Row D} (hrow : row ∈ s.states) :
    ∃ v, row.version = some v := by
  obtain ⟨k, hk⟩ := List.mem_iff_getElem?.mp hrow
  exact ⟨_, h.numbered k row hk⟩

/-- The version tells the state. -/
theorem unique (h : Inv v₀ s) {row row' : Row D} (hrow : row ∈ s.states)
    (hrow' : row' ∈ s.states) (heq : row.version = row'.version) : row = row' := by
  obtain ⟨k, hk⟩ := List.mem_iff_getElem?.mp hrow
  obtain ⟨k', hk'⟩ := List.mem_iff_getElem?.mp hrow'
  rw [h.numbered k row hk, h.numbered k' row' hk', Option.some_inj] at heq
  obtain rfl : k = k' := by omega
  rw [hk] at hk'
  exact Option.some.inj hk'

theorem current_mem (h : Inv v₀ s) {row : Row D} (hrow : s.row = some row) : row ∈ s.states :=
  List.mem_of_getLast? (h.current row hrow)

/-- The stored version has grown by the number of the saves. -/
theorem current_version (h : Inv v₀ s) {row : Row D} (hrow : s.row = some row) :
    row.version = some (v₀ + s.saves.length) := by
  have hlast := h.current row hrow
  rw [List.getLast?_eq_getElem?, h.count] at hlast
  exact h.numbered _ row hlast

end Inv

/-- A store with an expected version takes the write in the state of that version, or nothing. -/
theorem World.update_cases (s : World T I D) (op : T) (base row : Row D) (v : Int) :
    s.update op base row (some v) = (s, .error .conflict) ∨
      ∃ current, s.row = some current ∧ current.version = some v ∧
        s.update op base row (some v) = (s.write op .save base (some row), .ok ()) := by
  unfold World.update
  cases hrow : s.row with
  | none => exact .inl rfl
  | some current =>
    by_cases hversion : current.version = some v
    · exact .inr ⟨current, rfl, hversion, by simp [hversion]⟩
    · exact .inl (by simp [hversion])

theorem World.delete_cases (s : World T I D) (op : T) (base : Row D) (v : Int) :
    s.delete op base (some v) = (s, .error .conflict) ∨
      ∃ current, s.row = some current ∧ current.version = some v ∧
        s.delete op base (some v) = (s.write op .delete base none, .ok ()) := by
  unfold World.delete
  by_cases hversion : s.row.bind Row.version = some v
  · obtain ⟨current, hrow, hcurrent⟩ := Option.bind_eq_some_iff.mp hversion
    exact .inr ⟨current, hrow, hcurrent, by simp [hversion]⟩
  · exact .inl (by simp [hversion])

/-! ## The protocol -/

/-- Later states and writes follow the earlier ones. -/
structure Evolves (s s' : World T I D) : Prop where
  states : s.states <+: s'.states
  writes : s.writes <+: s'.writes

/-- The invariant, and each task knows the write that the store took from it. -/
structure Accounted (v₀ : Int) (wrote : T → Option WriteKind) (s : World T I D) : Prop where
  inv : Inv v₀ s
  wrote : ∀ t kind, wrote t = some kind ↔ ∃ w ∈ s.writes, w.op = t ∧ w.kind = kind
  once : (s.writes.map Write.op).Nodup

def protocol (v₀ : Int) : Protocol T (Option WriteKind) (World T I D) where
  inv := Accounted v₀
  evolves x y := Evolves x.2 y.2
  refl _ := ⟨List.prefix_rfl, List.prefix_rfl⟩
  trans h h' := ⟨h.states.trans h'.states, h.writes.trans h'.writes⟩

abbrev Triple {α : Type} (v₀ : Int) (t : T) (P : (T → Option WriteKind) → World T I D → Prop)
    (p : Task T I D α) (Q : α → (T → Option WriteKind) → World T I D → Prop)
    (E : WriteError → (T → Option WriteKind) → World T I D → Prop) : Prop :=
  (protocol v₀).Triple (fun _ => True) t P p Q E

/-- The store has taken no write of the task. -/
def Unwritten (t : T) (wrote : T → Option WriteKind) (_ : World T I D) : Prop := wrote t = none

def Wrote (t : T) (kind : WriteKind) (wrote : T → Option WriteKind) (_ : World T I D) : Prop :=
  wrote t = some kind

/-- Before an error other than that of a committed write, the store took nothing. -/
def FailedBefore (t : T) (e : WriteError) (wrote : T → Option WriteKind) (_ : World T I D) :
    Prop :=
  e ≠ .afterWrite → wrote t = none

/-- The row was a state of the stored row. -/
def IsState (row : Row D) (_ : T → Option WriteKind) (s : World T I D) : Prop := row ∈ s.states

section
variable {v₀ : Int} {t : T}

theorem stable_unwritten : (protocol v₀).Stable t (Unwritten (I := I) (D := D) t) :=
  Protocol.Stable.own (· = none)

theorem stable_wrote (kind : WriteKind) :
    (protocol v₀).Stable t (Wrote (I := I) (D := D) t kind) :=
  Protocol.Stable.own (· = some kind)

theorem stable_failedBefore (e : WriteError) :
    (protocol v₀).Stable t (FailedBefore (I := I) (D := D) t e) :=
  Protocol.Stable.own fun wrote : Option WriteKind => e ≠ .afterWrite → wrote = none

theorem kept_isState (row : Row D) : (protocol v₀).Kept (IsState (T := T) (I := I) row) :=
  fun _ _ _ _ h he => he.states.subset h

theorem stable_unwritten_isState (row : Row D) (P : Prop) : (protocol v₀).Stable t
    fun wrote (s : World T I D) => Unwritten t wrote s ∧ IsState row wrote s ∧ P :=
  stable_unwritten.and ((kept_isState row).and (.const P)).stable

/-! ## The steps -/

section
variable {wrote : T → Option WriteKind} {s : World T I D}

theorem moves_setModel [DecidableEq I] (hinv : (protocol v₀).inv wrote s) (i : I)
    {m : ModelState D}
    (hm : m.persisted = true → m.base ∈ s.states ∧ m.persistedVersion = m.base.version) :
    (protocol v₀).Moves t wrote s wrote (s.setModel i m) := by
  obtain ⟨hinv, hwrote, honce⟩ := hinv
  refine ⟨⟨⟨hinv.numbered, hinv.current, fun j m' hm' => ?_, hinv.writes, hinv.count⟩, hwrote,
    honce⟩, fun _ _ => rfl, ⟨List.prefix_rfl, List.prefix_rfl⟩⟩
  replace hm' : Function.update s.models i (some m) j = some m' := hm'
  by_cases hj : j = i
  · subst hj
    rw [Function.update_self] at hm'
    cases hm'
    exact hm
  · rw [Function.update_of_ne hj] at hm'
    exact hinv.models j m' hm'

/-- A change of an instance, if there is one. -/
theorem moves_changeModel [DecidableEq I] (hinv : (protocol v₀).inv wrote s) (i : I)
    {f : ModelState D → ModelState D}
    (hf : ∀ m, (m.persisted = true → m.base ∈ s.states ∧ m.persistedVersion = m.base.version) →
      (f m).persisted = true →
      (f m).base ∈ s.states ∧ (f m).persistedVersion = (f m).base.version) :
    (protocol v₀).Moves t wrote s wrote ((s.models i).elim s fun m => s.setModel i (f m)) := by
  cases hm : s.models i with
  | none => exact .refl hinv
  | some m => exact moves_setModel hinv i (hf m (hinv.inv.models i m hm))

/-- What a write of the task that is good does to the invariant. -/
theorem moves_write [DecidableEq T] (hinv : (protocol v₀).inv wrote s)
    (hunwritten : Unwritten t wrote s) {kind : WriteKind} {base : Row D} {row : Option (Row D)}
    (hgood : Write.Good ⟨t, kind, base, s.row, row⟩) :
    (protocol v₀).Moves t wrote s (Function.update wrote t (some kind))
      (s.write t kind base row) := by
  obtain ⟨hinv, hwrote, honce⟩ := hinv
  have hreplaced : s.row = some base := hgood.1
  have hversion := hinv.current_version hreplaced
  have hmem : ∀ r ∈ s.states, r ∈ s.states ++ row.toList := fun r hr => List.mem_append_left _ hr
  have hnew : ∀ w ∈ s.writes, w.op ≠ t := fun w hw hop => by
    have h := (hwrote t w.kind).mpr ⟨w, hw, hop, rfl⟩
    rw [show wrote t = none from hunwritten] at h
    cases h
  refine ⟨⟨⟨?_, ?_, ?_, ?_, ?_⟩, ?_, ?_⟩, fun u hu => Function.update_of_ne hu .., ?_⟩
  · intro k r hr
    replace hr : (s.states ++ row.toList)[k]? = some r := hr
    cases kind with
    | save =>
      obtain ⟨-, v, r', hv, rfl, hr'⟩ := hgood
      rcases Nat.lt_trichotomy k s.states.length with hk | hk | hk
      · rw [List.getElem?_append_left hk] at hr
        exact hinv.numbered k r hr
      · subst hk
        rw [Option.toList_some, List.getElem?_concat_length] at hr
        cases hr
        rw [hv, Option.some_inj] at hversion
        rw [hr', hinv.count, hversion]
        congr 1
        push_cast
        omega
      · have hlength : (s.states ++ (some r').toList).length ≤ k := by
          rw [List.length_append]
          exact hk
        rw [List.getElem?_eq_none hlength] at hr
        cases hr
    | delete =>
      obtain ⟨-, rfl⟩ := hgood
      rw [Option.toList_none, List.append_nil] at hr
      exact hinv.numbered k r hr
  · intro r hr
    obtain rfl : row = some r := hr
    exact List.getLast?_concat
  · intro i m hm hpersisted
    obtain ⟨hbase, hpv⟩ := hinv.models i m hm hpersisted
    exact ⟨hmem _ hbase, hpv⟩
  · intro w hw
    rcases List.mem_append.mp hw with hw | hw
    · exact hinv.writes w hw
    · cases List.mem_singleton.mp hw
      exact hgood
  · have hsaves : (s.write t kind base row).saves.length =
        s.saves.length + if kind = .save then 1 else 0 := by
      unfold World.saves World.write
      rw [List.filter_append, List.length_append]
      cases kind <;> rfl
    have hstates : (s.write t kind base row).states.length =
        s.states.length + row.toList.length := List.length_append
    rw [hsaves, hstates, hinv.count]
    cases kind with
    | save =>
      obtain ⟨-, v, r', hv, rfl, hr'⟩ := hgood
      rfl
    | delete =>
      obtain ⟨-, rfl⟩ := hgood
      rfl
  · intro u k
    change Function.update wrote t (some kind) u = some k ↔
      ∃ w ∈ s.writes ++ [⟨t, kind, base, s.row, row⟩], w.op = u ∧ w.kind = k
    simp only [List.mem_append, List.mem_singleton, or_and_right, exists_or, exists_eq_left]
    by_cases hu : u = t
    · subst hu
      rw [Function.update_self, Option.some_inj]
      constructor
      · exact fun h => .inr ⟨rfl, h⟩
      · rintro (⟨w, hw, hop, -⟩ | ⟨-, h⟩)
        · exact absurd hop (hnew w hw)
        · exact h
    · rw [Function.update_of_ne hu, hwrote]
      constructor
      · exact .inl
      · rintro (h | ⟨h, -⟩)
        · exact h
        · exact absurd h.symm hu
  · change ((s.writes ++ [Write.mk t kind base s.row row]).map Write.op).Nodup
    rw [List.map_append, List.map_singleton, List.nodup_append]
    refine ⟨honce, by simp, ?_⟩
    intro a ha b hb
    obtain ⟨w, hw, rfl⟩ := List.mem_map.mp ha
    cases List.mem_singleton.mp hb
    exact hnew w hw
  · exact ⟨List.prefix_append _ _, List.prefix_append _ _⟩

end

/-! ## The tasks -/

/-- The start of a write: the expected version is that of the state the instance stands on. -/
theorem triple_beginWrite [DecidableEq I] (i : I) :
    Triple v₀ t (Unwritten t) (beginWrite i : Task T I D _)
      (fun p wrote s => Unwritten t wrote s ∧ IsState p.2 wrote s ∧ p.1 = p.2.version)
      (FailedBefore t) := by
  refine .sync (fun wrote s hinv hP _ => ?_) (fun p => stable_unwritten_isState p.2 _)
    stable_failedBefore
  refine ⟨wrote, ?_⟩
  have hfail : ∀ e, FailedBefore t e wrote s := fun e _ => hP
  cases hm : s.models i with
  | none => exact ⟨.refl hinv, fun _ h => (nomatch h), fun e _ => hfail e⟩
  | some m =>
    by_cases hpersisted : m.persisted = true
    · obtain ⟨hbase, hpv⟩ := hinv.inv.models i m hm hpersisted
      obtain ⟨v, hv⟩ := hinv.inv.version hbase
      simp only [hpersisted, if_true]
      refine ⟨.refl hinv, fun p hp => ?_, fun e _ => hfail e⟩
      obtain ⟨version, hexpected, rfl⟩ := Except.map_eq_ok.mp hp
      refine ⟨hP, hbase, ?_⟩
      unfold ModelState.expectedWriteVersion at hexpected
      split at hexpected
      · cases hexpected
      · cases hexpected
        rw [hpv, hv]
        rfl
    · simp only [hpersisted, Bool.false_eq_true, if_false]
      exact ⟨.refl hinv, fun _ h => (nomatch h), fun e _ => hfail e⟩

/-- A step that only decides whether to go on. -/
theorem triple_check {α : Type} {f : Choice D → World T I D → Except WriteError α} {P : Prop}
    (base : Row D) :
    Triple v₀ t (fun wrote s => Unwritten t wrote s ∧ IsState base wrote s ∧ P)
      (Prog.atomically fun c s => (s, f c s) : Task T I D α)
      (fun _ wrote s => Unwritten t wrote s ∧ IsState base wrote s ∧ P) (FailedBefore t) :=
  .atomically (fun _ wrote _ hinv hP _ => ⟨wrote, .refl hinv, fun _ _ => hP, fun _ _ _ => hP.1⟩)
    (fun _ => stable_unwritten_isState base P) stable_failedBefore

/-- The update keeps the state it stands on and gets the next version. -/
def Prepared (t : T) (prepared : PreparedModelUpdate D) (wrote : T → Option WriteKind) (s : World T I D) :
    Prop :=
  Unwritten t wrote s ∧ IsState prepared.base wrote s ∧
    (prepared.expectedVersion = prepared.base.version ∧
      ∃ v, prepared.base.version = some v ∧ prepared.row.version = some (v + 1))

theorem triple_prepareSave [DecidableEq I] (i : I) :
    Triple v₀ t (Unwritten t) (prepareSave i : Task T I D _) (Prepared t) (FailedBefore t) := by
  refine .bind (triple_beginWrite i) fun p => ?_
  obtain ⟨originalVersion, base⟩ := p
  refine .bind (triple_check base) fun row => .ite (fun _ => .throw fun _ _ _ hP _ => hP.1)
    fun _ => ?_
  intro wrote s hinv hP
  obtain ⟨hunwritten, hstate, hversion⟩ := hP
  obtain ⟨v, hv⟩ := hinv.inv.version hstate
  obtain rfl : originalVersion = some v := hversion.trans hv
  dsimp only [Option.some_or]
  split
  · exact ⟨hunwritten, hstate, hv.symm, v, hv, rfl⟩
  · exact fun _ => hunwritten

/-- The errors after a committed write say so. -/
theorem triple_finishWrite {P : (T → Option WriteKind) → World T I D → Prop}
    (hstable : (protocol v₀).Stable t P) :
    Triple v₀ t P finishWrite (fun _ => P) (FailedBefore t) := by
  refine .atomically (fun c wrote s hinv hP _ => ⟨wrote, .refl hinv, fun _ _ => hP, ?_⟩)
    (fun _ => hstable) stable_failedBefore
  intro e he
  dsimp only at he
  split at he
  · cases he
  · cases he
    exact fun h => absurd rfl h

/-- The store takes an update in the state that it stands on. -/
theorem triple_update [DecidableEq T] (prepared : PreparedModelUpdate D) :
    Triple v₀ t (Prepared t prepared)
      (Prog.atomically fun c s =>
        if c.ok then s.update t prepared.base prepared.row prepared.expectedVersion
        else (s, .error .store) : Task T I D Unit)
      (fun _ wrote s => Wrote t .save wrote s ∧ IsState prepared.row wrote s)
      (FailedBefore t) := by
  refine .atomically (fun c wrote s hinv hP _ => ?_)
    (fun _ => (stable_wrote _).and (kept_isState _).stable) stable_failedBefore
  obtain ⟨hunwritten, hstate, hexpected, v, hv, hrow⟩ := hP
  rw [hexpected, hv]
  split
  · rcases s.update_cases t prepared.base prepared.row v with h | ⟨current, hcurrent, hcv, h⟩
    · rw [h]
      exact ⟨wrote, .refl hinv, fun _ hok => (nomatch hok), fun _ _ _ => hunwritten⟩
    · rw [h]
      obtain rfl := hinv.inv.unique hstate (hinv.inv.current_mem hcurrent) (hv.trans hcv.symm)
      refine ⟨_, moves_write hinv hunwritten ⟨hcurrent, v, prepared.row, hv, rfl, hrow⟩,
        fun _ _ => ⟨Function.update_self .., ?_⟩, fun _ herror => (nomatch herror)⟩
      exact List.mem_append_right _ (List.mem_singleton_self _)
  · exact ⟨wrote, .refl hinv, fun _ h => (nomatch h), fun _ _ _ => hunwritten⟩

theorem triple_save [DecidableEq T] [DecidableEq I] (i : I) :
    Triple v₀ t (Unwritten t) (save t i : Task T I D Unit) (fun _ => Wrote t .save)
      (FailedBefore t) := by
  refine .bind (triple_prepareSave i) fun prepared => .bind (.bind (triple_update prepared)
    fun _ => ?_) fun _ => triple_finishWrite (stable_wrote .save)
  refine .modifyGet (fun wrote s hinv hP _ => ⟨wrote, ?_, hP.1⟩) fun _ => stable_wrote .save
  exact moves_setModel hinv i fun _ => ⟨hP.2, rfl⟩

/-- The store takes a delete in the state that it stands on. -/
theorem triple_storeDelete [DecidableEq T] (base : Row D) (expectedVersion : Option Int) :
    Triple v₀ t (fun wrote s => Unwritten t wrote s ∧ IsState base wrote s ∧
        expectedVersion = base.version)
      (Prog.atomically fun c s =>
        if c.ok then s.delete t base expectedVersion else (s, .error .store) : Task T I D Unit)
      (fun _ => Wrote t .delete) (FailedBefore t) := by
  refine .atomically (fun c wrote s hinv hP _ => ?_) (fun _ => stable_wrote .delete)
    stable_failedBefore
  obtain ⟨hunwritten, hstate, hexpected⟩ := hP
  obtain ⟨v, hv⟩ := hinv.inv.version hstate
  rw [hexpected, hv]
  split
  · rcases s.delete_cases t base v with h | ⟨current, hcurrent, hcv, h⟩
    · rw [h]
      exact ⟨wrote, .refl hinv, fun _ hok => (nomatch hok), fun _ _ _ => hunwritten⟩
    · rw [h]
      obtain rfl := hinv.inv.unique hstate (hinv.inv.current_mem hcurrent) (hv.trans hcv.symm)
      exact ⟨_, moves_write hinv hunwritten ⟨hcurrent, rfl⟩,
        fun _ _ => Function.update_self .., fun _ herror => (nomatch herror)⟩
  · exact ⟨wrote, .refl hinv, fun _ h => (nomatch h), fun _ _ _ => hunwritten⟩

theorem triple_delete [DecidableEq T] [DecidableEq I] (i : I) :
    Triple v₀ t (Unwritten t) (delete t i : Task T I D Unit) (fun _ => Wrote t .delete)
      (FailedBefore t) := by
  refine .bind (triple_beginWrite i) fun p => .bind (triple_check p.2) fun _ =>
    .bind (triple_storeDelete p.2 p.1) fun _ => .bind ?_ fun _ =>
      triple_finishWrite (stable_wrote .delete)
  refine .modifyGet (fun wrote s hinv hP _ => ⟨wrote, ?_, hP⟩) fun _ => stable_wrote .delete
  exact moves_changeModel hinv i fun m _ h => Bool.noConfusion h

/-! ## The static forms -/

/-- What a read returned was a state of the row. -/
def Found (t : T) (found : Option (Row D)) (wrote : T → Option WriteKind) (s : World T I D) : Prop :=
  Unwritten t wrote s ∧ ∀ row, found = some row → IsState row wrote s

theorem stable_found (found : Option (Row D)) :
    (protocol v₀).Stable t (Found (I := I) t found) := by
  intro wrote s wrote' s' hinv h hr
  exact ⟨stable_unwritten _ _ _ _ hinv h.1 hr, fun row hrow =>
    kept_isState row _ _ _ _ (h.2 row hrow) hr.evolves⟩

theorem triple_readFresh :
    Triple v₀ t (Unwritten t) (readFresh : Task T I D _) (Found t) (FailedBefore t) := by
  refine .atomically (fun c wrote s hinv hP _ => ⟨wrote, .refl hinv, ?_, fun _ _ _ => hP⟩)
    stable_found stable_failedBefore
  intro found hfound
  dsimp only at hfound
  split at hfound
  · cases hfound
    exact ⟨hP, fun row hrow => hinv.inv.current_mem hrow⟩
  · cases hfound

theorem triple_instantiate [DecidableEq I] (i : I) (row : Row D) :
    Triple v₀ t (Found t (some row)) (instantiate i row) (fun _ => Unwritten t)
      (FailedBefore t) := by
  intro wrote s hinv hP c _ _
  have hmoves : (protocol v₀).Moves t wrote s wrote (s.setModel i (.loaded row)) :=
    moves_setModel hinv i fun _ => ⟨hP.2 row rfl, rfl⟩
  exact ⟨wrote, hmoves, fun wrote' s' hr => stable_unwritten _ _ _ _ hmoves.inv hP.1 hr⟩

theorem triple_assign [DecidableEq I] (i : I) (f : D → Option Int → D × Option Int) :
    Triple v₀ t (Unwritten t) (assign i f : Task T I D Unit) (fun _ => Unwritten t)
      (FailedBefore t) :=
  .modifyGet (fun wrote _ hinv hP _ => ⟨wrote, moves_changeModel hinv i fun _ h => h, hP⟩)
    fun _ => stable_unwritten

/-- A task that need not write: what it did is not told. -/
theorem Triple.weakenPost {α : Type} {P : (T → Option WriteKind) → World T I D → Prop}
    {p : Task T I D α} {Q : α → (T → Option WriteKind) → World T I D → Prop}
    (h : Triple v₀ t P p Q (FailedBefore t)) :
    Triple v₀ t P p (fun _ _ _ => True) (FailedBefore t) :=
  h.weaken (fun _ _ _ h => h) (fun _ _ _ _ _ => trivial) fun _ _ _ _ h => h

theorem triple_staticUpdate [DecidableEq T] [DecidableEq I] (i : I)
    (patch : D → Option Int → D × Option Int) :
    Triple v₀ t (Unwritten t) (staticUpdate t i patch : Task T I D Unit) (fun _ _ _ => True)
      (FailedBefore t) := by
  refine .bind triple_readFresh fun found => ?_
  cases found with
  | none =>
    exact (triple_finishWrite stable_unwritten).weaken (fun _ _ _ h => h.1)
      (fun _ _ _ _ _ => trivial) fun _ _ _ _ h => h
  | some row =>
    refine .bind (triple_instantiate i row) fun _ => ?_
    exact .bind (triple_assign i patch) fun _ => (triple_save i).weakenPost

theorem triple_staticDelete [DecidableEq T] :
    Triple v₀ t (Unwritten t) (staticDelete t : Task T I D Unit) (fun _ _ _ => True)
      (FailedBefore t) := by
  refine .bind triple_readFresh fun existing => ?_
  cases existing with
  | none =>
    exact (triple_finishWrite stable_unwritten).weaken (fun _ _ _ h => h.1)
      (fun _ _ _ _ _ => trivial) fun _ _ _ _ h => h
  | some row =>
    have hcheck : Triple v₀ t (Found t (some row)) (runBeforeDelete : Task T I D Unit)
        (fun _ wrote s => Unwritten t wrote s ∧ IsState row wrote s ∧ row.version = row.version)
        (FailedBefore t) := (triple_check row).pre fun _ _ _ h => ⟨h.1, h.2 row rfl, rfl⟩
    refine .bind hcheck fun _ => ?_
    exact .bind (triple_storeDelete row row.version) fun _ =>
      (triple_finishWrite (stable_wrote .delete)).weakenPost

theorem triple_load [DecidableEq I] (i : I) :
    Triple v₀ t (Unwritten t) (load i : Task T I D Unit) (fun _ => Unwritten t)
      (FailedBefore t) := by
  have hread : Triple v₀ t (Unwritten t)
      (Prog.atomically fun c s => (s, .ok s.states[c.pick]?) : Task T I D _) (Found t)
      (FailedBefore t) := by
    refine .atomically (fun c wrote s hinv hP _ => ⟨wrote, .refl hinv, ?_,
      fun _ h => (nomatch h)⟩) stable_found stable_failedBefore
    intro found hfound
    cases hfound
    exact ⟨hP, fun row hrow => List.mem_of_getElem? hrow⟩
  refine .bind hread fun found => ?_
  cases found with
  | none => exact .pure fun _ _ _ h => h.1
  | some row => exact triple_instantiate i row

/-- What the operations on an instance have written when they return. -/
def Job.Done (t : T) (wrote : T → Option WriteKind) (_ : World T I D) : Job I D → Prop
  | .save _ => wrote t = some .save
  | .delete _ => wrote t = some .delete
  | _ => True

theorem triple_task [DecidableEq T] [DecidableEq I] (job : Job I D) :
    Triple v₀ t (Unwritten t) (job.task t) (fun _ wrote s => job.Done t wrote s)
      (FailedBefore t) := by
  cases job with
  | save i => exact triple_save i
  | delete i => exact triple_delete i
  | staticUpdate i patch => exact triple_staticUpdate i patch
  | staticDelete => exact triple_staticDelete
  | load i => exact (triple_load i).weakenPost
  | assign i f => exact (triple_assign i f).weakenPost

end

/-! ## Which steps change an instance -/

/-- As long as the store has taken no write of the task, its steps leave the instances as they
are. -/
def Quiet (t : T) {α : Type} (Q : α → Prop) : Task T I D α → Prop
  | .ret a => Q a
  | .fail _ => True
  | .step _ update next => ∀ c s, (update c s).models = s.models ∧
    ((∀ w ∈ (update c s).writes, w.op ≠ t) → Quiet t Q (next c s))

namespace Quiet

variable {t : T} {α β : Type} {Q : α → Prop} {R : β → Prop}

theorem bind {p : Task T I D α} {f : α → Task T I D β} (hp : Quiet t Q p)
    (hf : ∀ a, Q a → Quiet t R (f a)) : Quiet t R (p >>= f) := by
  change Quiet t R (p.bind f)
  induction p with
  | ret a => exact hf a hp
  | fail e => trivial
  | step enabled update next ih =>
    exact fun c s => ⟨(hp c s).1, fun hw => ih c s ((hp c s).2 hw)⟩

/-- A step without effect on the instances that ends in a write of the task or a result. -/
theorem atomically {f : Choice D → World T I D → World T I D × Except WriteError α}
    (hmodels : ∀ c s, (f c s).1.models = s.models)
    (hok : ∀ c s a, (f c s).2 = .ok a → (∀ w ∈ (f c s).1.writes, w.op ≠ t) → Q a) :
    Quiet t Q (Prog.atomically f) := by
  refine fun c s => ⟨hmodels c s, fun hw => ?_⟩
  cases hf : (f c s).2 with
  | ok a =>
    simp only [hf]
    exact hok c s a hf hw
  | error e =>
    simp only [hf]
    trivial

end Quiet

theorem World.ne_of_mem_write {s : World T I D} {t : T} {kind : WriteKind} {base : Row D}
    {row : Option (Row D)} (h : ∀ w ∈ (s.write t kind base row).writes, w.op ≠ t) : False :=
  h _ (List.mem_append_right _ (List.mem_singleton_self _)) rfl

section
variable {t : T} {i : I}

theorem quiet_beginWrite : Quiet t (fun _ => True) (beginWrite i : Task T I D _) := by
  refine .atomically (fun _ s => ?_) fun _ _ _ _ _ => trivial
  dsimp only
  split
  · rfl
  · split <;> rfl

theorem quiet_prepareSave : Quiet t (fun _ => True) (prepareSave i : Task T I D _) := by
  refine .bind quiet_beginWrite fun p _ => .bind (.atomically (fun _ _ => rfl)
    fun _ _ _ _ _ => trivial) fun row _ => ?_
  split
  · trivial
  · split
    · trivial
    · split <;> trivial

/-- A store write that fails changes nothing, and one that succeeds is a write of the task. -/
theorem quiet_storeWrite {f : World T I D → World T I D × Except WriteError Unit}
    (h : ∀ s, (∃ e, f s = (s, .error e)) ∨
      ∃ kind base row, f s = (s.write t kind base row, .ok ())) :
    Quiet t (fun _ => False)
      (Prog.atomically fun c s => if c.ok then f s else (s, .error .store)) := by
  refine .atomically (fun c s => ?_) fun c s _ hok hw => ?_
  · split
    · rcases h s with ⟨e, hf⟩ | ⟨kind, base, row, hf⟩
      · rw [hf]
      · rw [hf]
        rfl
    · rfl
  · split at hok
    · rename_i hc
      rw [if_pos hc] at hw
      rcases h s with ⟨e, hf⟩ | ⟨kind, base, row, hf⟩
      · rw [hf] at hok
        cases hok
      · rw [hf] at hw
        exact World.ne_of_mem_write hw
    · cases hok

theorem World.update_result (s : World T I D) (base row : Row D) (expectedVersion : Option Int) :
    (∃ e, s.update t base row expectedVersion = (s, .error e)) ∨
      ∃ kind base' row', s.update t base row expectedVersion =
        (s.write t kind base' row', .ok ()) := by
  unfold World.update
  split
  · exact .inl ⟨_, rfl⟩
  · split
    · exact .inl ⟨_, rfl⟩
    · exact .inr ⟨_, _, _, rfl⟩

theorem World.delete_result (s : World T I D) (base : Row D) (expectedVersion : Option Int) :
    (∃ e, s.delete t base expectedVersion = (s, .error e)) ∨
      ∃ kind base' row', s.delete t base expectedVersion = (s.write t kind base' row', .ok ()) := by
  unfold World.delete
  split
  · exact .inl ⟨_, rfl⟩
  · exact .inr ⟨_, _, _, rfl⟩

theorem quiet_save [DecidableEq I] : Quiet t (fun _ => True) (save t i : Task T I D Unit) := by
  refine .bind quiet_prepareSave fun prepared _ => ?_
  have hwrite : Quiet t (fun _ => False) (writePreparedSave t i prepared) :=
    .bind (quiet_storeWrite fun s => s.update_result ..) fun _ h => h.elim
  exact .bind hwrite fun _ h => h.elim

theorem quiet_delete [DecidableEq I] :
    Quiet t (fun _ => True) (delete t i : Task T I D Unit) := by
  refine .bind quiet_beginWrite fun p _ => ?_
  have hcheck : Quiet t (fun _ => True) (runBeforeDelete : Task T I D Unit) :=
    .atomically (fun _ _ => rfl) fun _ _ _ _ _ => trivial
  exact .bind hcheck fun _ _ => .bind (quiet_storeWrite fun s => s.delete_result ..)
    fun _ h => h.elim

end

/-! ## Runs -/

/-- The operations that are called on an instance. -/
def Job.ofInstance : Job I D → Prop
  | .save _ => True
  | .delete _ => True
  | _ => False

theorem Job.task_isDone {t : T} [DecidableEq I] (job : Job I D) : (job.task t).isDone = false := by
  cases job <;> rfl

section
variable [DecidableEq T] [DecidableEq I] {jobs : T → Job I D}

/-- A pool that runs the operations. -/
abbrev Tasks (T I D : Type) := Pool T (World T I D) (Choice D) WriteError Unit

def start (row : Row D) (jobs : T → Job I D) : Tasks T I D :=
  Pool.init (.init row) fun t => (jobs t).task t

abbrev Run (c : Tasks T I D) (es : List (T × Choice D)) (c' : Tasks T I D) : Prop :=
  Pool.Run (fun _ => True) c es c'

/-- Where the tasks stand in the middle of a run. -/
abbrev Stands (v₀ : Int) (jobs : T → Job I D) (c : Tasks T I D) (wrote : T → Option WriteKind)
    (t : T) : Prop :=
  (protocol v₀).Stands (fun _ => True) (fun t => (jobs t).task t) Unwritten
    (fun t _ wrote s => (jobs t).Done t wrote s) FailedBefore c wrote t

omit [DecidableEq T] in
theorem stands_start (jobs : T → Job I D) {v₀ : Int} {row : Row D} (h : row.version = some v₀) :
    (protocol v₀).inv (fun _ => none) (start row jobs).state ∧
      ∀ t, Stands v₀ jobs (start row jobs) (fun _ => none) t := by
  refine ⟨⟨.init h, fun t kind => ⟨fun h => (nomatch h), ?_⟩, List.nodup_nil⟩,
    fun t => .inl ⟨rfl, rfl, rfl⟩⟩
  rintro ⟨w, hw, -⟩
  cases hw

theorem stands_run {v₀ : Int} {c c' : Tasks T I D} {es : List (T × Choice D)} {wrote : T → Option WriteKind}
    (hinv : (protocol v₀).inv wrote c.state) (h : ∀ t, Stands v₀ jobs c wrote t)
    (hrun : Run c es c') : ∃ wrote', (protocol v₀).inv wrote' c'.state ∧
      Evolves c.state c'.state ∧ ∀ t, Stands v₀ jobs c' wrote' t :=
  Protocol.Stands.run (fun _ => stable_unwritten) (fun t => triple_task (jobs t)) hinv h hrun

/-- As long as the store has taken no write of a task of an instance, the task is quiet. -/
theorem quiet_run {v₀ : Int} {row : Row D} (h₀ : row.version = some v₀)
    {es : List (T × Choice D)} {c : Tasks T I D} (hrun : Run (start row jobs) es c) (t : T)
    (hjob : (jobs t).ofInstance) (hw : ∀ w ∈ c.state.writes, w.op ≠ t) :
    Quiet t (fun _ => True) (c.prog t) := by
  suffices h : ∃ wrote, (protocol v₀).inv wrote c.state ∧ (∀ t, Stands v₀ jobs c wrote t) ∧
      ((∀ w ∈ c.state.writes, w.op ≠ t) → Quiet t (fun _ => True) (c.prog t)) by
    obtain ⟨-, -, -, h⟩ := h
    exact h hw
  refine hrun.invariant (P := fun c => ∃ wrote, (protocol v₀).inv wrote c.state ∧
    (∀ t, Stands v₀ jobs c wrote t) ∧
      ((∀ w ∈ c.state.writes, w.op ≠ t) → Quiet t (fun _ => True) (c.prog t))) ?_ ?_
  · intro c e c' ⟨wrote, hinv, hstands, hquiet⟩ hstep
    obtain ⟨wrote', hinv', hevolves, hstands'⟩ := stands_run hinv hstands (.single hstep)
    refine ⟨wrote', hinv', hstands', fun hw => ?_⟩
    have hquiet := hquiet fun w hmem => hw w (hevolves.writes.subset hmem)
    obtain ⟨enabled, update, next, hp, hen, rfl⟩ := Pool.step_cases hstep.1
    by_cases ht : t = e.1
    · subst ht
      rw [hp] at hquiet
      simp only [Function.update_self]
      exact (hquiet e.2 c.state).2 hw
    · simp only [Function.update_of_ne ht]
      exact hquiet
  · obtain ⟨hinv, hstands⟩ := stands_start jobs h₀
    refine ⟨_, hinv, hstands, fun _ => ?_⟩
    change Quiet t _ ((jobs t).task t)
    cases hj : jobs t with
    | save i => exact quiet_save
    | delete i => exact quiet_delete
    | staticUpdate i patch =>
      rw [hj] at hjob
      exact hjob.elim
    | staticDelete =>
      rw [hj] at hjob
      exact hjob.elim
    | load i =>
      rw [hj] at hjob
      exact hjob.elim
    | assign i f =>
      rw [hj] at hjob
      exact hjob.elim

end

/-- Two instances are loaded and saved. -/
def rivals : Fin 4 → Job Bool Nat
  | 0 => .load true
  | 1 => .load false
  | 2 => .save true
  | 3 => .save false

end ActiveTs.Models
