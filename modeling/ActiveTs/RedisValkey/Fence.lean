import Mathlib.Data.List.Induction
import ActiveTs.RedisValkey.Scripts

/-! # The version fence

A version that was handed out stays current only as long as nobody invalidated or replaced the
entry and the version key did not expire: every version installed later is new. So a versioned
set that succeeds has had no such event since the read of its version. -/

namespace ActiveTs.RedisValkey

variable {β : Type}

/-- The version that is stored now. -/
def Server.current (s : Server β) : Option String := s.version.map Entry.data

namespace Action

/-- The token that the client generated for the script. -/
def token? : Action β → Option String
  | .versionedGet token => some token
  | .versionedSet _ _ _ token => some token
  | .unconditionalSet _ _ token => some token
  | .invalidate token => some token
  | .storeRead => none
  | .advance _ => none

end Action

namespace Event

/-- The versions that the event may install. -/
def versions (e : Event β) : List String :=
  e.action.token?.elim [] fun token => [token, Server.rotated token]

/-- An invalidation, an unconditional set, or an expiry of the version key. -/
def isFence (e : Event β) : Bool :=
  e.versionExpired ||
    match e.action, e.reply with
    | .invalidate _, .flag 1 => true
    | .unconditionalSet .., .flag 1 => true
    | _, _ => false

/-- The version that a versioned get returned. -/
def returned (e : Event β) : Option String :=
  match e.reply with
  | .versioned _ version => some version
  | _ => none

end Event

namespace Server

variable {s s' : Server β} {e : Event β}

/-! ## Single scripts -/

theorem setPx_ok {now : Nat} {data : β} {milliseconds : Int} {slot : Option (Entry β)}
    (h : setPx now data milliseconds = .ok slot) : slot.map Entry.data = some data := by
  unfold setPx at h
  split at h
  · cases h
  · cases h
    rfl

theorem pexpire_data {now : Nat} {milliseconds : Int} {slot : Option (Entry β)} :
    (pexpire now milliseconds slot).map Entry.data = slot.map Entry.data ∨
      pexpire now milliseconds slot = none := by
  cases slot with
  | none => exact .inr rfl
  | some e =>
    simp only [pexpire]
    split
    · exact .inr rfl
    · exact .inl rfl

theorem persist_data (slot : Option (Entry β)) :
    (persist slot).map Entry.data = slot.map Entry.data := by
  cases slot <;> rfl

theorem versionedGet_ok {token version : String} {value : Option β}
    (h : s.versionedGet token = .ok (s', value, version)) :
    s'.value = s.value ∧
      ((s.current = none ∧ version = token ∧ s'.current = some token) ∨
        s.current = some version ∧ (s'.current = some version ∨ s'.version = none)) := by
  unfold versionedGet at h
  cases hver : s.version with
  | none =>
    cases hval : s.value with
    | some entry =>
      simp only [hver, hval] at h
      obtain ⟨slot, hslot, h⟩ := Except.bind_eq_ok.mp h
      cases h
      refine ⟨hval.symm ▸ rfl, .inl ⟨by simp [current, hver], rfl, ?_⟩⟩
      unfold createVersion at hslot
      split at hslot
      · exact setPx_ok hslot
      · cases hslot
        rfl
    | none =>
      simp only [hver, hval] at h
      obtain ⟨slot, hslot, h⟩ := Except.bind_eq_ok.mp h
      cases h
      exact ⟨hval.symm ▸ rfl, .inl ⟨by simp [current, hver], rfl, setPx_ok hslot⟩⟩
  | some ver =>
    cases hval : s.value with
    | some entry =>
      simp only [hver, hval] at h
      cases h
      refine ⟨hval.symm ▸ rfl, .inr ⟨by simp [current, hver], ?_⟩⟩
      simp only [current]
      split
      · exact pexpire_data
      · exact .inl (persist_data _)
    | none =>
      simp only [hver, hval] at h
      cases h
      refine ⟨hval.symm ▸ rfl, .inr ⟨by simp [current, hver], ?_⟩⟩
      simp only [current]
      split
      · exact pexpire_data
      · exact .inl rfl

theorem setBoth_ok {value : β} {version : String} {ttl : Option Nat}
    (h : s.setBoth value version ttl = .ok s') :
    s'.current = some version ∧ s'.value.map Entry.data = some value := by
  cases ttl with
  | none =>
    cases h
    exact ⟨rfl, rfl⟩
  | some seconds =>
    obtain ⟨valueSlot, hvalue, h⟩ := Except.bind_eq_ok.mp h
    obtain ⟨versionSlot, hversion, h⟩ := Except.bind_eq_ok.mp h
    cases h
    exact ⟨setPx_ok hversion, setPx_ok hvalue⟩

theorem versionedSet_ok {expected token : String} {value : β} {ttl : Option Nat} {n : Nat}
    (h : s.versionedSet expected value ttl token = .ok (s', n)) :
    (n = 1 ∧ s.current = some expected ∧ s'.current = some expected ∧
        s'.value.map Entry.data = some value) ∨
      (n = 0 ∧ s'.value = s.value ∧ (s' = s ∨
        s.current = none ∧ ∃ v ∈ [token, rotated token], s'.current = some v)) := by
  unfold versionedSet at h
  cases hver : s.version with
  | none =>
    simp only [hver] at h
    obtain ⟨slot, hslot, h⟩ := Except.bind_eq_ok.mp h
    cases h
    refine .inr ⟨rfl, rfl, .inr ⟨by simp [current, hver], _, ?_, setPx_ok hslot⟩⟩
    split <;> simp
  | some ver =>
    simp only [hver] at h
    split at h
    · cases h
      exact .inr ⟨rfl, rfl, .inl rfl⟩
    · next heq =>
      obtain ⟨s₁, hset, h⟩ := Except.bind_eq_ok.mp h
      cases h
      obtain ⟨hcur, hval⟩ := setBoth_ok hset
      have heq : ver.data = expected := Decidable.not_not.mp heq
      exact .inl ⟨rfl, by simp [current, hver, heq], heq ▸ hcur, hval⟩

theorem nextToken_mem (s : Server β) (token : String) :
    s.nextToken token ∈ [token, rotated token] := by
  unfold nextToken
  split
  · split <;> simp
  · simp

theorem unconditionalSet_ok {token : String} {value : β} {ttl : Option Nat} {n : Nat}
    (h : s.unconditionalSet value ttl token = .ok (s', n)) :
    n = 1 ∧ s'.current = some (s.nextToken token) ∧ s'.value.map Entry.data = some value := by
  obtain ⟨s₁, hset, h⟩ := Except.bind_eq_ok.mp h
  cases h
  exact ⟨rfl, setBoth_ok hset⟩

theorem invalidate_ok {token : String} {n : Nat} (h : s.invalidate token = .ok (s', n)) :
    n = 1 ∧ s'.current = some (s.nextToken token) ∧ s'.value = none := by
  obtain ⟨slot, hslot, h⟩ := Except.bind_eq_ok.mp h
  cases h
  exact ⟨rfl, setPx_ok hslot, rfl⟩

/-! ## Single steps -/

/-- What a step does: a failed script and a store read do nothing. -/
inductive StepCase (s : Server β) : Action β → Reply β → Server β → Prop where
  | failed {action : Action β} {error : ServerError} : StepCase s action (.error error) s
  | versionedGet {token version : String} {value : Option β} {s' : Server β} :
      s.versionedGet token = .ok (s', value, version) →
      StepCase s (.versionedGet token) (.versioned value version) s'
  | versionedSet {expected token : String} {value : β} {ttl : Option Nat} {s' : Server β}
      {n : Nat} :
      s.versionedSet expected value ttl token = .ok (s', n) →
      StepCase s (.versionedSet expected value ttl token) (.flag n) s'
  | unconditionalSet {token : String} {value : β} {ttl : Option Nat} {s' : Server β} {n : Nat} :
      s.unconditionalSet value ttl token = .ok (s', n) →
      StepCase s (.unconditionalSet value ttl token) (.flag n) s'
  | invalidate {token : String} {s' : Server β} {n : Nat} : s.invalidate token = .ok (s', n) →
      StepCase s (.invalidate token) (.flag n) s'
  | storeRead : StepCase s .storeRead .none s
  | advance {milliseconds : Nat} : StepCase s (.advance milliseconds) .none (s.advance milliseconds)

theorem reply_cases {result : Except ServerError (Server β × γ)} {f : γ → Reply β}
    {r : Reply β} (h : s.reply result f = (s', r)) :
    (∃ x, result = .ok (s', x) ∧ r = f x) ∨ ∃ error, s' = s ∧ r = .error error := by
  cases result with
  | ok p =>
    cases h
    exact .inl ⟨p.2, rfl, rfl⟩
  | error e =>
    cases h
    exact .inr ⟨e, rfl, rfl⟩

theorem step_cases {action : Action β} {r : Reply β} (h : s.step action = (s', r)) :
    s.StepCase action r s' := by
  cases action with
  | versionedGet token =>
    rcases reply_cases h with ⟨⟨value, version⟩, hok, rfl⟩ | ⟨error, rfl, rfl⟩
    · exact .versionedGet hok
    · exact .failed
  | versionedSet expected value ttl token =>
    rcases reply_cases h with ⟨n, hok, rfl⟩ | ⟨error, rfl, rfl⟩
    · exact .versionedSet hok
    · exact .failed
  | unconditionalSet value ttl token =>
    rcases reply_cases h with ⟨n, hok, rfl⟩ | ⟨error, rfl, rfl⟩
    · exact .unconditionalSet hok
    · exact .failed
  | invalidate token =>
    have h : s.reply (s.invalidate token) .flag = (s', r) := h
    rcases reply_cases h with ⟨n, hok, rfl⟩ | ⟨error, rfl, rfl⟩
    · exact .invalidate hok
    · exact .failed
  | storeRead =>
    cases h
    exact .storeRead
  | advance milliseconds =>
    cases h
    exact .advance

theorem current_isSome (s : Server β) : s.current.isSome = s.version.isSome := by
  cases hver : s.version <;> simp [current, hver]

/-- The version key did not disappear when the version stayed the same. -/
theorem Step.not_expired (h : s.Step e s') (hsame : s'.current = s.current) :
    e.versionExpired = false := by
  rw [h.2.1, ← current_isSome, ← Option.not_isSome, ← current_isSome, hsame]
  exact Bool.and_not_self _

/-- The version stays and the step is no fence, or it is gone, or it is one of the step's own. -/
theorem Step.current_cases (h : s.Step e s') :
    (s'.current = s.current ∧ e.isFence = false) ∨ s'.current = none ∨
      ∃ v ∈ e.versions, s'.current = some v := by
  have hexpired : s'.current = s.current → e.versionExpired = false := h.not_expired
  obtain ⟨hstep, -⟩ := h
  obtain ⟨action, r, versionExpired, valueGone⟩ := e
  simp only at hstep hexpired
  cases step_cases hstep with
  | failed =>
    refine .inl ⟨rfl, ?_⟩
    simp [Event.isFence, hexpired rfl]
  | versionedGet hget =>
    obtain ⟨_, ⟨_, _, hcur⟩ | ⟨hcur, hcur' | hgone⟩⟩ := versionedGet_ok hget
    · exact .inr (.inr ⟨_, List.mem_cons_self, hcur⟩)
    · refine .inl ⟨hcur'.trans hcur.symm, ?_⟩
      simp [Event.isFence, hexpired (hcur'.trans hcur.symm)]
    · exact .inr (.inl (by simp [current, hgone]))
  | versionedSet hset =>
    obtain ⟨_, hcur, hcur', _⟩ | ⟨_, _, rfl | ⟨_, v, hv, hcur⟩⟩ := versionedSet_ok hset
    · refine .inl ⟨hcur'.trans hcur.symm, ?_⟩
      simp [Event.isFence, hexpired (hcur'.trans hcur.symm)]
    · refine .inl ⟨rfl, ?_⟩
      simp [Event.isFence, hexpired rfl]
    · exact .inr (.inr ⟨v, hv, hcur⟩)
  | unconditionalSet hset =>
    exact .inr (.inr ⟨_, nextToken_mem s _, (unconditionalSet_ok hset).2.1⟩)
  | invalidate hinv =>
    exact .inr (.inr ⟨_, nextToken_mem s _, (invalidate_ok hinv).2.1⟩)
  | storeRead =>
    refine .inl ⟨rfl, ?_⟩
    simp [Event.isFence, hexpired rfl]
  | @advance milliseconds =>
    cases hver : s.version with
    | none => exact .inr (.inl (by simp [current, advance, hver]))
    | some ver =>
      cases halive : ver.alive (s.now + milliseconds) with
      | false => exact .inr (.inl (by simp [current, advance, hver, halive]))
      | true =>
        have hsame : (s.advance milliseconds).current = s.current := by
          simp [current, advance, hver, halive]
        refine .inl ⟨hsame, ?_⟩
        simp [Event.isFence, hexpired hsame]

theorem Step.returned_cases (h : s.Step e s') {v : String} (hv : e.returned = some v) :
    (s'.current = some v ∨ s'.current = none) ∧ (s.current = some v ∨ v ∈ e.versions) := by
  obtain ⟨hstep, -⟩ := h
  obtain ⟨action, r, versionExpired, valueGone⟩ := e
  simp only at hstep
  cases step_cases hstep with
  | versionedGet hget =>
    obtain rfl := Option.some.inj hv
    obtain ⟨_, ⟨_, rfl, hcur⟩ | ⟨hcur, hcur' | hgone⟩⟩ := versionedGet_ok hget
    · exact ⟨.inl hcur, .inr List.mem_cons_self⟩
    · exact ⟨.inl hcur', .inl hcur⟩
    · exact ⟨.inr (by simp [current, hgone]), .inl hcur⟩
  | _ => cases hv

/-- A versioned set that returned 1 found the version that it expected. -/
theorem Step.set_current (h : s.Step e s') {expected token : String} {value : β}
    {ttl : Option Nat} (ha : e.action = .versionedSet expected value ttl token)
    (hr : e.reply = .flag 1) : s.current = some expected := by
  obtain ⟨hstep, -⟩ := h
  rw [ha, hr] at hstep
  cases step_cases hstep with
  | versionedSet hset =>
    obtain ⟨_, hcur, _⟩ | ⟨hn, _⟩ := versionedSet_ok hset
    · exact hcur
    · cases hn

end Server

/-! ## Histories -/

/-- Every token that the clients generate is new: neither it nor its rotated form is an initial
version or one that an earlier step could install. -/
def FreshTokens (initial : Option String) (es : List (Event β)) : Prop :=
  ∀ past e post, es = past ++ e :: post → ∀ v ∈ e.versions,
    v ∉ initial.toList ++ past.flatMap Event.versions

theorem FreshTokens.left {initial : Option String} {es es' : List (Event β)}
    (h : FreshTokens initial (es ++ es')) : FreshTokens initial es := by
  intro past e post he
  refine h past e (post ++ es') ?_
  rw [he, List.append_assoc, List.cons_append]

theorem FreshTokens.nil {initial : Option String} :
    FreshTokens initial ([] : List (Event β)) := by
  intro past e post he
  simp at he

theorem FreshTokens.snoc {initial : Option String} {es : List (Event β)} {e : Event β}
    (h : FreshTokens initial es)
    (he : ∀ v ∈ e.versions, v ∉ initial.toList ++ es.flatMap Event.versions) :
    FreshTokens initial (es ++ [e]) := by
  intro past e' post hes
  rcases List.eq_nil_or_concat post with rfl | ⟨post, x, rfl⟩
  · obtain ⟨rfl, hx⟩ := List.append_inj' hes rfl
    cases hx
    exact he
  · rw [List.concat_eq_append, ← List.cons_append, ← List.append_assoc] at hes
    exact h past e' post (List.append_inj' hes rfl).1

/-- Between the get that returned the version `v` and the end of the history no fence. -/
def Unfenced (es : List (Event β)) (i : Nat) : Prop :=
  ∀ (m : Nat) (e : Event β), i < m → es[m]? = some e → e.isFence = false

/-- The fence invariant: the versions in play are known, and one that is still current has seen
no fence since it was returned. -/
structure FenceInv (initial : Option String) (s : Server β) (es : List (Event β)) : Prop where
  known : ∀ v, s.current = some v → v ∈ initial.toList ++ es.flatMap Event.versions
  returned : ∀ (i : Nat) (g : Event β) (v : String), es[i]? = some g → g.returned = some v →
    v ∈ initial.toList ++ es.flatMap Event.versions
  unfenced : ∀ (i : Nat) (g : Event β) (v : String), es[i]? = some g → g.returned = some v → s.current = some v →
    Unfenced es i

theorem getElem?_snoc {es : List γ} {e x : γ} {i : Nat} (h : (es ++ [e])[i]? = some x) :
    es[i]? = some x ∨ i = es.length ∧ x = e := by
  rcases Nat.lt_or_ge i es.length with hlt | hge
  · exact .inl ((List.getElem?_append_left hlt).symm.trans h)
  · rw [List.getElem?_append_right hge, List.getElem?_singleton,
      Option.ite_none_right_eq_some] at h
    exact .inr ⟨Nat.le_antisymm (Nat.le_of_sub_eq_zero h.1) hge, (Option.some.inj h.2).symm⟩

theorem FenceInv.step {initial : Option String} {s s' : Server β} {es : List (Event β)}
    {e : Event β} (h : FenceInv initial s es) (hs : s.Step e s')
    (hfresh : FreshTokens initial (es ++ [e])) : FenceInv initial s' (es ++ [e]) := by
  have hnew : ∀ v ∈ e.versions, v ∉ initial.toList ++ es.flatMap Event.versions :=
    hfresh es e [] rfl
  have hmono : ∀ v ∈ initial.toList ++ es.flatMap Event.versions,
      v ∈ initial.toList ++ (es ++ [e]).flatMap Event.versions := by
    intro v hv
    rw [List.flatMap_append, ← List.append_assoc]
    exact List.mem_append_left _ hv
  have hown : ∀ v ∈ e.versions, v ∈ initial.toList ++ (es ++ [e]).flatMap Event.versions := by
    intro v hv
    rw [List.flatMap_append, ← List.append_assoc]
    exact List.mem_append_right _ (by simpa using hv)
  refine ⟨fun v hv => ?_, fun i g v hg hgv => ?_, fun i g v hg hgv hcur => ?_⟩
  · rcases hs.current_cases with ⟨hsame, _⟩ | hnone | ⟨w, hw, hcur⟩
    · exact hmono v (h.known v (hsame ▸ hv))
    · rw [hnone] at hv
      cases hv
    · rw [hcur] at hv
      cases hv
      exact hown v hw
  · rcases getElem?_snoc hg with hg | ⟨_, rfl⟩
    · exact hmono v (h.returned i g v hg hgv)
    · rcases (hs.returned_cases hgv).2 with hcur | hv
      · exact hmono v (h.known v hcur)
      · exact hown v hv
  · intro m x him hx
    rcases getElem?_snoc hg with hg | ⟨rfl, rfl⟩
    · -- an older get: the version cannot be one of the step's own, so it stayed
      rcases hs.current_cases with ⟨hsame, hquiet⟩ | hnone | ⟨w, hw, hw'⟩
      · rcases getElem?_snoc hx with hx | ⟨_, rfl⟩
        · exact h.unfenced i g v hg hgv (hsame ▸ hcur) m x him hx
        · exact hquiet
      · rw [hnone] at hcur
        cases hcur
      · rw [hw'] at hcur
        cases hcur
        exact absurd (h.returned i g v hg hgv) (hnew v hw)
    · have hlt : m < (es ++ [g]).length := (List.getElem?_eq_some_iff.mp hx).1
      rw [List.length_append, List.length_singleton] at hlt
      omega

theorem FenceInv.of_run {s₀ s : Server β} {es : List (Event β)} (h : s₀.Run es s)
    (hfresh : FreshTokens s₀.current es) : FenceInv s₀.current s es := by
  refine h.history (P := fun s es => FreshTokens s₀.current es → FenceInv s₀.current s es)
    ?_ (fun _ => ⟨fun v hv => ?_, fun _ _ _ hg => ?_, fun _ _ _ hg => ?_⟩) hfresh
  · intro s es e s' ih hs hfresh
    exact (ih hfresh.left).step hs hfresh
  · simp [hv]
  · simp at hg
  · simp at hg

/-- A versioned set that returned 1 saw no fence since any get that returned its version. -/
theorem Server.Run.set_unfenced {s₀ s : Server β} {es : List (Event β)} (h : s₀.Run es s)
    (hfresh : FreshTokens s₀.current es) {i j : Nat} {g w : Event β} {expected token : String}
    {value : β} {ttl : Option Nat} (hij : i < j) (hg : es[i]? = some g)
    (hgv : g.returned = some expected) (hw : es[j]? = some w)
    (ha : w.action = .versionedSet expected value ttl token) (hr : w.reply = .flag 1)
    {m : Nat} {e : Event β} (him : i < m) (hmj : m < j) (he : es[m]? = some e) :
    e.isFence = false := by
  induction h with
  | nil => simp at hg
  | @snoc es s w' s' hrun hs ih =>
    rcases getElem?_snoc hw with hw | ⟨rfl, rfl⟩
    · have hlt : j < es.length := (List.getElem?_eq_some_iff.mp hw).1
      rw [List.getElem?_append_left (by omega)] at hg he
      exact ih hfresh.left hg hw he
    · rw [List.getElem?_append_left (by omega)] at hg he
      exact (FenceInv.of_run hrun hfresh.left).unfenced i g expected hg hgv
        (hs.set_current ha hr) m e him he

/-! ## The stored value -/

/-- The payload of an event that stored it. -/
def Event.stored (e : Event β) : Option β :=
  match e.action, e.reply with
  | .versionedSet _ value _ _, .flag 1 => some value
  | .unconditionalSet value _ _, .flag 1 => some value
  | _, _ => none

theorem Event.reply_of_stored {e : Event β} (h : e.stored.isSome) : e.reply = .flag 1 := by
  unfold stored at h
  split at h
  · assumption
  · assumption
  · cases h

/-- The position of the event that stored the value of the entry, if it is still there. -/
def writer (es : List (Event β)) : Option Nat :=
  (es.foldl (fun (p : Option Nat × Nat) e =>
    (if e.valueGone then none else if e.stored.isSome then some p.2 else p.1, p.2 + 1))
    (none, 0)).1

theorem writer_snoc (es : List (Event β)) (e : Event β) :
    writer (es ++ [e]) =
      if e.valueGone then none else if e.stored.isSome then some es.length else writer es := by
  have hcount : ∀ (es : List (Event β)) (p : Option Nat × Nat),
      (es.foldl (fun (p : Option Nat × Nat) e =>
        (if e.valueGone then none else if e.stored.isSome then some p.2 else p.1, p.2 + 1))
        p).2 = p.2 + es.length := by
    intro es
    induction es with
    | nil => simp
    | cons e es ih =>
      intro p
      rw [List.foldl_cons, ih, List.length_cons]
      omega
  rw [writer, List.foldl_append, List.foldl_cons, List.foldl_nil, hcount, Nat.zero_add, writer]

/-- A step stores its payload, or leaves the value alone unless the value goes. -/
theorem Server.Step.value_cases {s s' : Server β} {e : Event β} (h : s.Step e s') :
    e.valueGone = s'.value.isNone ∧
      ((e.stored.isSome ∧ s'.value.map Entry.data = e.stored) ∨
        e.stored = none ∧ (s'.value = s.value ∨ s'.value = none)) := by
  refine ⟨h.2.2, ?_⟩
  obtain ⟨hstep, -⟩ := h
  obtain ⟨action, r, versionExpired, valueGone⟩ := e
  simp only at hstep
  cases step_cases hstep with
  | failed => exact .inr ⟨by cases action <;> rfl, .inl rfl⟩
  | versionedGet hget => exact .inr ⟨rfl, .inl (versionedGet_ok hget).1⟩
  | versionedSet hset =>
    obtain ⟨rfl, _, _, hval⟩ | ⟨rfl, hval, _⟩ := versionedSet_ok hset
    · exact .inl ⟨rfl, hval⟩
    · exact .inr ⟨rfl, .inl hval⟩
  | unconditionalSet hset =>
    obtain ⟨rfl, _, hval⟩ := unconditionalSet_ok hset
    exact .inl ⟨rfl, hval⟩
  | invalidate hinv => exact .inr ⟨rfl, .inr (invalidate_ok hinv).2.2⟩
  | storeRead => exact .inr ⟨rfl, .inl rfl⟩
  | advance =>
    refine .inr ⟨rfl, ?_⟩
    simp only [advance]
    cases s.value with
    | none => exact .inl rfl
    | some entry =>
      rw [Option.filter_some]
      split
      · exact .inl rfl
      · exact .inr rfl

theorem Server.Step.invalidate_gone {s s' : Server β} {e : Event β} (h : s.Step e s')
    {token : String} (ha : e.action = .invalidate token) (hr : e.reply = .flag 1) :
    e.valueGone := by
  obtain ⟨hstep, -, hgone⟩ := h
  rw [ha, hr] at hstep
  rw [hgone]
  cases step_cases hstep with
  | invalidate hinv => rw [(invalidate_ok hinv).2.2, Option.isNone_none]

/-- The stored value is the payload of its writer. -/
theorem Server.Run.writer_value {s₀ s : Server β} {es : List (Event β)} (h : s₀.Run es s)
    {j : Nat} (hj : writer es = some j) :
    ∃ w, es[j]? = some w ∧ w.stored.isSome ∧ s.value.map Entry.data = w.stored := by
  induction h generalizing j with
  | nil => cases hj
  | @snoc es s e s' hrun hs ih =>
    obtain ⟨hgone, hvalue⟩ := hs.value_cases
    rw [writer_snoc] at hj
    split at hj
    · cases hj
    · next hthere =>
      rcases hvalue with ⟨hsome, hval⟩ | ⟨hnone, hval⟩
      · rw [if_pos hsome] at hj
        cases hj
        exact ⟨e, by simp, hsome, hval⟩
      · rw [hnone, if_neg (by simp)] at hj
        obtain ⟨w, hw, hsome, hstored⟩ := ih hj
        have hlt : j < es.length := (List.getElem?_eq_some_iff.mp hw).1
        refine ⟨w, (List.getElem?_append_left hlt).trans hw, hsome, ?_⟩
        rcases hval with hval | hval
        · rw [hval, hstored]
        · rw [hgone, hval] at hthere
          exact absurd rfl hthere

/-- After an event that removes the value, only a later writer can be behind it. -/
theorem writer_gt {es : List (Event β)} {k j : Nat} {e : Event β} (hk : es[k]? = some e)
    (hgone : e.valueGone) (hj : writer es = some j) : k < j := by
  induction es using List.reverseRecOn generalizing j with
  | nil => simp at hk
  | append_singleton es e' ih =>
    rw [writer_snoc] at hj
    rcases getElem?_snoc hk with hk | ⟨rfl, rfl⟩
    · have hlt : k < es.length := (List.getElem?_eq_some_iff.mp hk).1
      split at hj
      · cases hj
      · split at hj
        · cases hj
          exact hlt
        · exact ih hk hj
    · rw [if_pos hgone] at hj
      cases hj

/-! ## The fence -/

/-- The fence of the versioned cache. First, a versioned set returns 1 only if no invalidation,
no unconditional set and no expiry of the version key came between any get that returned its
expected version and the set. Second, a fill reads the version at `i`, the store at `r` and sets
at `j`; if its store read came before an invalidation, then after the invalidation the stored
value is not the fill's. -/
theorem versioned_fence {s₀ s : Server β} {es : List (Event β)} (h : s₀.Run es s)
    (hfresh : FreshTokens s₀.current es) {i j : Nat} {g w : Event β} {expected token : String}
    {value : β} {ttl : Option Nat} (hg : es[i]? = some g) (hgv : g.returned = some expected)
    (hw : es[j]? = some w) (ha : w.action = .versionedSet expected value ttl token)
    (hij : i < j) :
    (w.reply = .flag 1 → ∀ m e, i < m → m < j → es[m]? = some e → e.isFence = false) ∧
      ∀ r k e t, i < r → r < j → r < k → es[k]? = some e → e.action = .invalidate t →
        e.reply = .flag 1 → writer es ≠ some j := by
  have hset : w.reply = .flag 1 → ∀ m e, i < m → m < j → es[m]? = some e →
      e.isFence = false :=
    fun hr m e him hmj he => h.set_unfenced hfresh hij hg hgv hw ha hr him hmj he
  refine ⟨hset, fun r k e t hir hrj hrk he hinv hok hwriter => ?_⟩
  obtain ⟨w', hw', hstored, _⟩ := h.writer_value hwriter
  obtain rfl : w = w' := Option.some.inj (hw.symm.trans hw')
  have hr : w.reply = .flag 1 := Event.reply_of_stored hstored
  obtain ⟨s₁, s₂, hs⟩ := h.mem_step (List.mem_of_getElem? he)
  have hgone : e.valueGone := hs.invalidate_gone hinv hok
  -- the writer comes after the invalidation, so the invalidation lies between get and set
  have hkj : k < j := writer_gt he hgone hwriter
  have hquiet := hset hr k e (by omega) hkj he
  simp [Event.isFence, hinv, hok] at hquiet

/-- A fill that reads the version "a" and the store, and sets before the invalidation. -/
theorem versioned_fence_example :
    let s₀ : Server Nat := ⟨0, none, none⟩
    let get : Event Nat := ⟨.versionedGet "a", .versioned none "a", false, true⟩
    let read : Event Nat := ⟨.storeRead, .none, false, true⟩
    let set : Event Nat := ⟨.versionedSet "a" 7 (some 60) "b", .flag 1, false, false⟩
    let invalidate : Event Nat := ⟨.invalidate "c", .flag 1, false, true⟩
    ∃ s, s₀.Run [get, read, set, invalidate] s ∧ read.isFence = false ∧
      writer [get, read, set, invalidate] ≠ some 2 := by
  intro s₀ get read set invalidate
  obtain ⟨s₁, s₂, s₃, s₄, h₁, h₂, h₃, h₄⟩ : ∃ s₁ s₂ s₃ s₄, s₀.Step get s₁ ∧ s₁.Step read s₂ ∧
      s₂.Step set s₃ ∧ s₃.Step invalidate s₄ :=
    ⟨_, _, _, _, ⟨rfl, rfl, rfl⟩, ⟨rfl, rfl, rfl⟩, ⟨rfl, rfl, rfl⟩, ⟨rfl, rfl, rfl⟩⟩
  have hrun : s₀.Run [get, read, set, invalidate] s₄ := .snoc (.snoc (.snoc (.single h₁) h₂) h₃) h₄
  have hfresh : FreshTokens s₀.current [get, read, set, invalidate] := by
    refine .snoc (.snoc (.snoc (.snoc (.nil) ?_) ?_) ?_) ?_ <;>
      simp [s₀, get, read, set, invalidate, Event.versions, Action.token?, Server.rotated,
        Server.current]
  obtain ⟨hset, hfill⟩ := versioned_fence (i := 0) (j := 2) hrun hfresh rfl rfl rfl rfl (by decide)
  exact ⟨s₄, hrun, hset rfl 1 read (by decide) (by decide) rfl,
    hfill 1 3 invalidate "c" (by decide) (by decide) (by decide) rfl rfl rfl⟩

end ActiveTs.RedisValkey
