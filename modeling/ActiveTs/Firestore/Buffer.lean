import ActiveTs.Firestore.Queues

/-! # The buffer of a Firestore transaction

What the handle shows of its keys, and that the staged writes leave the same, apart from the mutations
that are staged and not yet buffered. -/

namespace ActiveTs.Firestore

open Histories

universe u

variable {Key Row Query : Type u} [DecidableEq Key] {snapshot : Key → Option Row}
  {evaluate : Query → (Key → Option Row) → List Row} {s t : State Key Row Query}

/-! ## Rows -/

@[simp] theorem setRow_self (contents : Key → Option Row) (key : Key) (row : Option Row) :
    setRow contents key row key = row :=
  if_pos rfl

theorem setRow_of_ne (contents : Key → Option Row) {key other : Key} (row : Option Row)
    (h : other ≠ key) : setRow contents key row other = contents other :=
  if_neg h

/-- What a mutation asks of the row that it changes. -/
def Mutation.Allowed (row : Option Row) : Mutation Row → Prop
  | create _ => row = none
  | update _ => row ≠ none
  | delete => True

theorem direct_mutate {contents : Key → Option Row} {key : Key} {mutation : Mutation Row}
    (h : mutation.Allowed (contents key)) :
    Direct evaluate contents (.mutate key mutation) (setRow contents key mutation.row) := by
  cases mutation with
  | create data => exact .create data h
  | update data => exact .update data h
  | delete => exact .delete contents key

theorem applyStaged_append {contents m : Key → Option Row} {staged pushed : List (Write Key Row)} :
    applyStaged contents (staged ++ pushed) = some m ↔
      ∃ m', applyStaged contents staged = some m' ∧ applyStaged m' pushed = some m := by
  rw [applyStaged, List.foldlM_append]
  exact Option.bind_eq_some_iff

namespace State

/-- What the handle shows. -/
def content (snapshot : Key → Option Row) (s : State Key Row Query) (key : Key) : Option Row :=
  (s.bufferedRow key).getD (snapshot key)

theorem content_of_none {key : Key} (h : s.buffered.get? key = none) :
    s.content snapshot key = snapshot key := by
  rw [content, bufferedRow, h]
  rfl

theorem content_of_some {key : Key} {mutation : Mutation Row}
    (h : s.buffered.get? key = some mutation) : s.content snapshot key = mutation.row := by
  rw [content, bufferedRow, h]
  rfl

/-- A mutation that is staged and not yet buffered. -/
def Pending (s : State Key Row Query) (key : Key) (id : Nat) (mutation : Mutation Row) : Prop :=
  ∃ call, s.calls[id]? = some (call, .written) ∧ call.mutation = some (key, mutation)

omit [DecidableEq Key] in
theorem Pending.on {key : Key} {id : Nat} {mutation : Mutation Row} (h : s.Pending key id mutation) :
    s.On key id .written := by
  obtain ⟨call, hcall, hmutation⟩ := h
  exact ⟨call, hcall, congrArg (Option.map Prod.fst) hmutation⟩

/-- What a call can be in some phase. -/
def Fits (call : Call Key Row Query) : Phase Key Row → Prop
  | .waiting rows _ key rest => call.mutation = none ∧ call.keys.drop rows.length = key :: rest
  | .fetching rows key rest => call.mutation = none ∧ call.keys.drop rows.length = key :: rest
  | .waitingAll _ => call.mutation = none
  | .querying => call.mutation = none
  | .queued _ => call.mutation ≠ none
  | .reading => call.mutation ≠ none
  | .written => call.mutation ≠ none
  | _ => True

/-- The staged writes leave what the handle shows, but for the mutations that are pending. -/
structure Staged (snapshot : Key → Option Row) (s : State Key Row Query) (m : Key → Option Row) :
    Prop where
  pending : ∀ {key id mutation}, s.Pending key id mutation →
    m key = mutation.row ∧ mutation.Allowed (s.content snapshot key)
  shown : ∀ {key}, (∀ id mutation, ¬s.Pending key id mutation) → m key = s.content snapshot key

structure Sound (snapshot : Key → Option Row) (s : State Key Row Query) : Prop where
  fits : ∀ {id : Nat} {call : Call Key Row Query} {phase : Phase Key Row}, s.calls[id]? = some (call, phase) → Fits call phase
  clean : s.dirty = false → s.staged = [] ∧ (∀ key, s.buffered.get? key = none) ∧
    ∀ key id mutation, ¬s.Pending key id mutation
  cached : ∀ {key row}, s.pointReads.get? key = some row → row = snapshot key
  reading : ∀ {id key}, s.On key id .reading → s.buffered.get? key = none
  staged : ∀ {m}, applyStaged snapshot s.staged = some m → s.Staged snapshot m

theorem Sound.initial : (initial : State Key Row Query).Sound snapshot where
  fits h := by cases h
  clean _ := ⟨rfl, fun _ => rfl, fun _ _ _ h => by
    obtain ⟨_, hcall, -⟩ := h
    cases hcall⟩
  cached h := by cases h
  reading h := by
    obtain ⟨_, h, -⟩ := h
    cases h
  staged h := by
    cases h
    refine ⟨fun hpending => ?_, fun _ => rfl⟩
    obtain ⟨_, hcall, -⟩ := hpending
    cases hcall

/-- A clean handle shows the snapshot. -/
theorem Sound.content_eq (hs : s.Sound snapshot) (hclean : s.dirty = false) :
    s.content snapshot = snapshot := by
  funext key
  exact content_of_none ((hs.clean hclean).2.1 key)

/-- A point read that needs no SDK reads what is shown. -/
theorem Sound.finds (hs : s.Sound snapshot) {key : Key} {row : Option Row} (h : s.Finds key row) :
    s.content snapshot key = row := by
  rcases h with hbuffered | ⟨hnone, hcached⟩
  · rw [content, hbuffered]
    rfl
  · rw [content, hnone, hs.cached hcached]
    rfl

/-! ## Segments that stage nothing -/

/-- A step that leaves the buffer and the staged writes alone. -/
theorem Sound.keep (hs : s.Sound snapshot) (hbuffered : t.buffered = s.buffered)
    (hdirty : t.dirty = s.dirty) (hstaged : t.staged = s.staged)
    (hcached : ∀ {key row}, t.pointReads.get? key = some row → row = snapshot key)
    (hfits : ∀ {id : Nat} {call : Call Key Row Query} {phase : Phase Key Row}, t.calls[id]? = some (call, phase) → Fits call phase)
    (hreading : ∀ {id key}, t.On key id .reading → s.buffered.get? key = none)
    (hpending : ∀ {key id mutation}, t.Pending key id mutation ↔ s.Pending key id mutation) :
    t.Sound snapshot where
  fits := hfits
  clean h := by
    rw [hdirty] at h
    obtain ⟨hnil, hempty, hnone⟩ := hs.clean h
    rw [hstaged, hbuffered]
    exact ⟨hnil, hempty, fun key id mutation h => hnone key id mutation (hpending.mp h)⟩
  cached := hcached
  reading h := by
    rw [hbuffered]
    exact hreading h
  staged {m} h := by
    rw [hstaged] at h
    have hcontent : t.content snapshot = s.content snapshot := by
      funext key
      rw [content, content, bufferedRow, bufferedRow, hbuffered]
    obtain ⟨hmutated, hshown⟩ := hs.staged h
    refine ⟨fun h => hcontent ▸ hmutated (hpending.mp h), fun h => hcontent ▸ hshown ?_⟩
    exact fun id mutation h' => h id mutation (hpending.mpr h')

omit [DecidableEq Key] in
theorem pending_snoc {call : Call Key Row Query} {phase : Phase Key Row}
    (hcalls : t.calls = s.calls ++ [(call, phase)]) (hphase : phase ≠ .written) {key : Key} {id : Nat}
    {mutation : Mutation Row} : t.Pending key id mutation ↔ s.Pending key id mutation := by
  rw [Pending, Pending, hcalls]
  simp only [getElem?_snoc]
  split <;> rename_i hid
  · constructor
    · rintro ⟨_, h, -⟩
      cases h
      exact absurd rfl hphase
    · rintro ⟨_, h, -⟩
      exact absurd (lt_of_getElem? h) (by omega)
  · rfl

theorem pending_perform {id : Nat} {call : Call Key Row Query} {phase : Phase Key Row}
    (hcall : s.calls[id]? = some (call, phase)) (segment : Segment Key Row) {key : Key} {id' : Nat}
    {mutation : Mutation Row} : (s.perform id call segment).Pending key id' mutation ↔
      if id' = id then segment.phase = .written ∧ call.mutation = some (key, mutation)
      else s.Pending key id' mutation := by
  rw [Pending]
  simp only [calls_perform hcall]
  split
  · constructor
    · rintro ⟨call', h, hmutation⟩
      obtain ⟨rfl, hphase⟩ := Prod.mk.inj (Option.some.inj h)
      exact ⟨hphase, hmutation⟩
    · rintro ⟨hphase, hmutation⟩
      exact ⟨call, by rw [hphase], hmutation⟩
  · rfl

theorem fits_readNext {call : Call Key Row Query} {rows : List (Option Row)} {rest : List Key}
    (hcall : call.mutation = none) (h : call.keys.drop rows.length = rest) :
    Fits call (s.readNext call rows rest) := by
  cases rest with
  | nil => trivial
  | cons key rest => exact ⟨hcall, h⟩

theorem buffered_perform {id : Nat} {call : Call Key Row Query} {segment : Segment Key Row}
    (h : call.mutation = none ∨ ∀ result, segment.phase ≠ .returned result) :
    (s.perform id call segment).buffered = s.buffered := by
  rw [perform]
  split <;> rename_i hmutation hphase
  · rcases h with hnone | hne
    · rw [hnone] at hmutation
      cases hmutation
    · exact absurd hphase (hne _)
  · rfl

theorem cached_perform (hs : s.Sound snapshot) {id : Nat} {call : Call Key Row Query}
    {segment : Segment Key Row} (hread : ∀ key row, segment.read = some (key, row) → row = snapshot key)
    {key : Key} {row : Option Row} (h : (s.perform id call segment).pointReads.get? key = some row) :
    row = snapshot key := by
  cases hsegment : segment.read with
  | none =>
    rw [perform, hsegment] at h
    exact hs.cached h
  | some entry =>
    rw [perform, hsegment] at h
    dsimp only at h
    rw [JsMap.get?_set] at h
    split at h <;> rename_i hkey
    · cases h
      exact hkey ▸ hread entry.1 entry.2 hsegment
    · exact hs.cached h

theorem fits_perform (hs : s.Sound snapshot) {id : Nat} {call : Call Key Row Query}
    {phase : Phase Key Row} (hcall : s.calls[id]? = some (call, phase)) {segment : Segment Key Row}
    (hfits : Fits call segment.phase) {id' : Nat} {call' : Call Key Row Query} {phase' : Phase Key Row}
    (h : (s.perform id call segment).calls[id']? = some (call', phase')) : Fits call' phase' := by
  rw [calls_perform hcall] at h
  split at h
  · obtain ⟨rfl, rfl⟩ := Prod.mk.inj (Option.some.inj h)
    exact hfits
  · exact hs.fits h

/-- A segment that stages and buffers nothing. -/
theorem Sound.unstaged (hs : s.Sound snapshot) {id : Nat} {call : Call Key Row Query}
    {phase : Phase Key Row} (hcall : s.calls[id]? = some (call, phase)) {segment : Segment Key Row}
    (hstaged : segment.staged = none)
    (hread : ∀ key row, segment.read = some (key, row) → row = snapshot key)
    (hbuffer : call.mutation = none ∨ ∀ result, segment.phase ≠ .returned result)
    (hbefore : phase ≠ .written) (hafter : segment.phase ≠ .written) (hfits : Fits call segment.phase)
    (hreading : segment.phase = .reading → ∀ key, call.mutates = some key →
      s.buffered.get? key = none) : (s.perform id call segment).Sound snapshot := by
  apply hs.keep (buffered_perform hbuffer)
  · change (s.dirty || segment.staged.isSome) = s.dirty
    rw [hstaged]
    exact Bool.or_false _
  · change s.staged ++ segment.staged.toList = s.staged
    rw [hstaged]
    exact List.append_nil _
  · exact cached_perform hs hread
  · exact fits_perform hs hcall hfits
  · intro id' key h
    rw [on_perform hcall] at h
    split at h
    · exact hreading h.2.symm key h.1
    · exact hs.reading h
  · intro key id' mutation
    rw [pending_perform hcall]
    split <;> rename_i hid
    · subst hid
      apply iff_of_false
      · exact fun h => hafter h.1
      · rintro ⟨_, h, -⟩
        cases hcall.symm.trans h
        exact hbefore rfl
    · rfl

/-! ## Staged writes -/

theorem Queued.no_pending (hq : s.Queued) {id : Nat} {call : Call Key Row Query} {phase : Phase Key Row}
    (hcall : s.calls[id]? = some (call, phase)) {key : Key} (hkey : call.mutates = some key)
    (hworking : s.Working phase) {id' : Nat} {mutation : Mutation Row} (h : s.Pending key id' mutation) :
    id' = id := by
  by_contra hne
  rcases hq.alone ⟨call, hcall, hkey⟩ h.on hworking (Ne.symm hne) with h | h <;> cases h

/-- A mutation stages its write. -/
theorem Sound.stage (hs : s.Sound snapshot) (hq : s.Queued) {id : Nat} {call : Call Key Row Query}
    {phase : Phase Key Row} (hcall : s.calls[id]? = some (call, phase)) (hworking : s.Working phase)
    (hbefore : phase ≠ .written) {key : Key} {mutation : Mutation Row}
    (hmutation : call.mutation = some (key, mutation)) {read : Option (Key × Option Row)}
    (hread : ∀ key row, read = some (key, row) → row = snapshot key) {write : Write Key Row}
    (hwrite : ∀ {m m'}, m key = s.content snapshot key → write.apply m = some m' →
      m' = setRow m key mutation.row ∧ mutation.Allowed (s.content snapshot key)) :
    (s.perform id call ⟨.written, read, some write⟩).Sound snapshot := by
  have hkey : call.mutates = some key := congrArg (Option.map Prod.fst) hmutation
  have hbuffered := @buffered_perform _ _ _ _ s id call ⟨.written, read, some write⟩
    (Or.inr nofun)
  have hcontent : (s.perform id call ⟨.written, read, some write⟩).content snapshot =
      s.content snapshot := by
    funext key
    rw [content, content, bufferedRow, bufferedRow, hbuffered]
  have hnone {id' : Nat} {mutation' : Mutation Row} (h : s.Pending key id' mutation') : False := by
    obtain rfl := hq.no_pending hcall hkey hworking h
    obtain ⟨_, h, -⟩ := h
    cases hcall.symm.trans h
    exact hbefore rfl
  have hself : (s.perform id call ⟨.written, read, some write⟩).Pending key id mutation := by
    rw [pending_perform hcall, if_pos rfl]
    exact ⟨rfl, hmutation⟩
  refine ⟨fits_perform hs hcall ?_, ?_, cached_perform hs hread, ?_, ?_⟩
  · change call.mutation ≠ none
    rw [hmutation]
    exact nofun
  · intro h
    change (s.dirty || true) = false at h
    rw [Bool.or_true] at h
    cases h
  · intro id' key' h
    rw [on_perform hcall] at h
    rw [hbuffered]
    split at h
    · cases h.2
    · exact hs.reading h
  · intro m' h
    obtain ⟨m, hm, hpushed⟩ := applyStaged_append.mp h
    obtain ⟨hmutated, hshown⟩ := hs.staged hm
    obtain ⟨rfl, hallowed⟩ := hwrite (hshown fun _ _ h => hnone h) (by
      simpa [applyStaged] using hpushed)
    constructor
    · intro key' id' mutation' h'
      rw [hcontent]
      rw [pending_perform hcall] at h'
      split at h'
      · cases hmutation.symm.trans h'.2
        exact ⟨setRow_self m key _, hallowed⟩
      · have hne : key' ≠ key := by
          rintro rfl
          exact hnone h'
        rw [setRow_of_ne m _ hne]
        exact hmutated h'
    · intro key' h'
      have hne : key' ≠ key := by
        rintro rfl
        exact h' _ _ hself
      rw [hcontent, setRow_of_ne m _ hne]
      apply hshown
      intro id' mutation' hpending
      apply h' id' mutation'
      rw [pending_perform hcall, if_neg]
      · exact hpending
      · rintro rfl
        obtain ⟨_, hwritten, -⟩ := hpending
        cases hcall.symm.trans hwritten
        exact hbefore rfl

/-- A mutation is buffered. -/
theorem Sound.finish (hs : s.Sound snapshot) (hq : s.Queued) {id : Nat} {call : Call Key Row Query}
    (hcall : s.calls[id]? = some (call, .written)) {key : Key} {mutation : Mutation Row}
    (hmutation : call.mutation = some (key, mutation)) :
    (s.perform id call ⟨.returned .done, none, none⟩).Sound snapshot ∧
      (s.perform id call ⟨.returned .done, none, none⟩).content snapshot =
        setRow (s.content snapshot) key mutation.row := by
  have hkey : call.mutates = some key := congrArg (Option.map Prod.fst) hmutation
  have hself : s.Pending key id mutation := ⟨call, hcall, hmutation⟩
  have hbuffered : (s.perform id call ⟨.returned .done, none, none⟩).buffered =
      s.buffered.set key mutation := by
    rw [perform, hmutation]
  have hcontent : (s.perform id call ⟨.returned .done, none, none⟩).content snapshot =
      setRow (s.content snapshot) key mutation.row := by
    funext key'
    by_cases h : key' = key
    · subst h
      rw [setRow_self]
      apply content_of_some
      rw [hbuffered, JsMap.get?_set_self]
    · rw [setRow_of_ne _ _ h, content, bufferedRow, hbuffered,
        JsMap.get?_set_of_ne _ _ (Ne.symm h)]
      rfl
  have hwritten {id' : Nat} {mutation' : Mutation Row} (h : s.Pending key id' mutation') : id' = id :=
    hq.no_pending hcall hkey trivial h
  refine ⟨⟨?_, ?_, ?_, ?_, ?_⟩, hcontent⟩
  · apply fits_perform hs hcall
    trivial
  · intro h
    change (s.dirty || false) = false at h
    rw [Bool.or_false] at h
    exact absurd hself ((hs.clean h).2.2 key id mutation)
  · apply cached_perform hs
    intro _ _ h
    cases h
  · intro id' key' h
    rw [on_perform hcall] at h
    split at h <;> rename_i hid
    · cases h.2
    · have hne : key ≠ key' := by
        rintro rfl
        rcases hq.alone hself.on h trivial (Ne.symm hid) with h | h <;> cases h
      rw [hbuffered, JsMap.get?_set_of_ne _ _ hne]
      exact hs.reading h
  · intro m h
    change applyStaged snapshot (s.staged ++ []) = some m at h
    rw [List.append_nil] at h
    obtain ⟨hmutated, hshown⟩ := hs.staged h
    constructor
    · intro key' id' mutation' h'
      rw [pending_perform hcall] at h'
      split at h' <;> rename_i hid
      · cases h'.1
      · have hne : key' ≠ key := by
          rintro rfl
          exact hid (hwritten h')
        rw [hcontent, setRow_of_ne _ _ hne]
        exact hmutated h'
    · intro key' h'
      rw [hcontent]
      by_cases hkey' : key' = key
      · subst hkey'
        rw [setRow_self]
        exact (hmutated hself).1
      · rw [setRow_of_ne _ _ hkey']
        apply hshown
        intro id' mutation' hpending
        apply h' id' mutation'
        rw [pending_perform hcall, if_neg]
        · exact hpending
        · rintro rfl
          obtain ⟨_, hcall', hmutation'⟩ := hpending
          cases hcall.symm.trans hcall'
          cases hmutation.symm.trans hmutation'
          exact hkey' rfl

/-- What a mutation stages gives its key the row of the mutation. -/
theorem Stages.apply {key : Key} {mutation : Mutation Row} {write : Write Key Row}
    (h : s.Stages key mutation write) (hs : s.Sound snapshot) {m m' : Key → Option Row}
    (hm : m key = s.content snapshot key) (hwrite : write.apply m = some m') :
    m' = setRow m key mutation.row ∧ mutation.Allowed (s.content snapshot key) := by
  cases h with
  | create h =>
    rw [Write.apply] at hwrite
    cases hrow : m key with
    | none =>
      rw [hrow] at hwrite
      exact ⟨(Option.some.inj hwrite).symm, hm.symm.trans hrow⟩
    | some row =>
      rw [hrow] at hwrite
      cases hwrite
  | recreate h => exact ⟨(Option.some.inj hwrite).symm, content_of_some h⟩
  | update h hrow =>
    refine ⟨(Option.some.inj hwrite).symm, ?_⟩
    rw [Mutation.Allowed, content_of_some h]
    exact hrow
  | updateRead h hread =>
    refine ⟨(Option.some.inj hwrite).symm, ?_⟩
    rw [Mutation.Allowed, content_of_none h, ← hs.cached hread]
    exact nofun
  | delete => exact ⟨(Option.some.inj hwrite).symm, trivial⟩

theorem readNext_unwritten {call : Call Key Row Query} {rows : List (Option Row)} {rest : List Key} :
    s.readNext call rows rest ≠ .written ∧ s.readNext call rows rest ≠ .reading := by
  cases rest <;> exact ⟨nofun, nofun⟩

omit [DecidableEq Key] in
theorem drop_snoc {keys : List Key} {rows : List (Option Row)} {key : Key} {rest : List Key}
    (h : keys.drop rows.length = key :: rest) (row : Option Row) :
    keys.drop (rows ++ [row]).length = rest := by
  rw [List.length_append, List.length_singleton, ← List.drop_drop, h]
  rfl

theorem Sound.perform (hs : s.Sound snapshot) (hq : s.Queued) {id : Nat} {call : Call Key Row Query}
    {phase : Phase Key Row} (hcall : s.calls[id]? = some (call, phase)) {segment : Segment Key Row}
    (h : Advances snapshot evaluate s call phase segment) :
    (s.perform id call segment).Sound snapshot := by
  have hfits := hs.fits hcall
  cases h with
  | found h =>
    exact hs.unstaged hcall rfl nofun (Or.inl hfits.1) nofun readNext_unwritten.1
      (fits_readNext hfits.1 (drop_snoc hfits.2 _)) fun h => absurd h readNext_unwritten.2
  | fetch => exact hs.unstaged hcall rfl nofun (Or.inl hfits.1) nofun nofun hfits nofun
  | fetched =>
    refine hs.unstaged hcall rfl ?_ (Or.inl hfits.1) nofun readNext_unwritten.1
      (fits_readNext hfits.1 (drop_snoc hfits.2 _)) fun h => absurd h readNext_unwritten.2
    intro key row h
    cases h
    rfl
  | send => exact hs.unstaged hcall rfl nofun (Or.inl hfits) nofun nofun hfits nofun
  | queried => exact hs.unstaged hcall rfl nofun (Or.inl rfl) nofun nofun trivial nofun
  | stage hturn hmutation h =>
    apply hs.stage hq hcall hturn nofun hmutation
    · exact fun _ _ hread => nomatch hread
    · exact fun hm hwrite => h.apply hs hm hwrite
  | read hturn h =>
    refine hs.unstaged hcall rfl nofun (Or.inr nofun) nofun nofun hfits fun _ key hkey => ?_
    cases hkey
    exact h
  | @replace key data row h =>
    refine hs.stage hq hcall trivial nofun rfl ?_ fun {m m'} hm hwrite => ?_
    · intro key row heq
      cases heq
      exact h.symm
    · refine ⟨(Option.some.inj hwrite).symm, ?_⟩
      rw [Mutation.Allowed, content_of_none (hs.reading ⟨_, hcall, rfl⟩), h]
      exact nofun
  | finish =>
    obtain ⟨⟨key, mutation⟩, hmutation⟩ := Option.ne_none_iff_exists'.mp hfits
    exact (hs.finish hq hcall hmutation).1
  | fail hopen hunwritten hturn hread =>
    exact hs.unstaged hcall rfl hread (Or.inr nofun) hunwritten nofun trivial nofun

/-- A call that starts. -/
theorem Sound.snoc (hs : s.Sound snapshot) {call : Call Key Row Query} {phase : Phase Key Row}
    (hcalls : t.calls = s.calls ++ [(call, phase)]) (hbuffered : t.buffered = s.buffered)
    (hdirty : t.dirty = s.dirty) (hstaged : t.staged = s.staged) (hcached : t.pointReads = s.pointReads)
    (hfits : Fits call phase) (hphase : phase ≠ .written ∧ phase ≠ .reading) : t.Sound snapshot := by
  apply hs.keep hbuffered hdirty hstaged
  · rw [hcached]
    exact hs.cached
  · intro id call' phase' h
    rw [hcalls, getElem?_snoc] at h
    split at h
    · obtain ⟨rfl, rfl⟩ := Prod.mk.inj (Option.some.inj h)
      exact hfits
    · exact hs.fits h
  · intro id key h
    rw [on_snoc hcalls] at h
    split at h
    · exact absurd h.2.symm hphase.2
    · exact hs.reading h
  · exact pending_snoc hcalls hphase.1

theorem startPhase_unwritten (call : Call Key Row Query) :
    s.startPhase call ≠ .written ∧ s.startPhase call ≠ .reading := by
  cases call with
  | get key => exact @readNext_unwritten _ _ _ _ s (.get key) [] [key]
  | getMany keys => exact @readNext_unwritten _ _ _ _ s (.getMany keys) [] keys
  | _ => exact ⟨nofun, nofun⟩

theorem fits_startPhase (call : Call Key Row Query) : Fits call (s.startPhase call) := by
  cases call with
  | get key => exact @fits_readNext _ _ _ _ s (.get key) [] [key] rfl rfl
  | getMany keys => exact @fits_readNext _ _ _ _ s (.getMany keys) [] keys rfl rfl
  | query => rfl
  | _ => exact nofun

theorem Sound.step (hs : s.Sound snapshot) (hq : s.Queued)
    {events : List (Event (Call Key Row Query) (Result Row))}
    (h : Stepped snapshot evaluate s events t) : t.Sound snapshot := by
  cases h with
  | start call =>
    exact hs.snoc rfl rfl rfl rfl rfl (fits_startPhase call) (startPhase_unwritten call)
  | refuse call => exact hs.snoc rfl rfl rfl rfl rfl trivial ⟨nofun, nofun⟩
  | segment hcall h => exact hs.perform hq hcall h

end State

end ActiveTs.Firestore
