import ActiveTs.Datastore.TransactionStore

/-! # Queries over the buffer of a Datastore transaction

Mutations and rows that are found in different ways have the same identity, so that a query over the buffer
lists what it would list where the mutations had been applied. -/

namespace ActiveTs.Datastore.Buffered

universe u

variable {Kind Id Data Summary : Type u} [DecidableEq Kind] [DecidableEq Id]
  {resolver : Resolvers Kind Id Data} {snapshot : Contents Kind Id Data}
  {buffered : JsMap (Path Kind Id) (Mutation Kind Id Data)} {query : Query Kind Id Data}

/-! ## The buffer -/

/-- What a buffered operation says of the entity in the snapshot. -/
def Operation.Net (stored : Option Data) : Operation Data → Prop
  | create _ => stored = none
  | update _ => stored ≠ none
  | delete existed => stored ≠ none ∧ existed = true

/-- One net mutation for each entity, under its key. -/
def Net (resolver : Resolvers Kind Id Data) (snapshot : Contents Kind Id Data)
    (buffered : JsMap (Path Kind Id) (Mutation Kind Id Data)) : Prop :=
  ∀ key mutation, buffered.get? key = some mutation →
    transactionMutationKey resolver mutation.kind mutation.id mutation.operation.row mutation.override =
      some key ∧ mutation.operation.Net (snapshot key)

/-- What is shown of the entities. -/
def content (snapshot : Contents Kind Id Data) (buffered : JsMap (Path Kind Id) (Mutation Kind Id Data)) :
    Contents Kind Id Data :=
  fun key =>
    match buffered.get? key with
    | some mutation => mutation.operation.row
    | none => snapshot key

theorem content_of_some {key : Path Kind Id} {mutation : Mutation Kind Id Data}
    (h : buffered.get? key = some mutation) : content snapshot buffered key = mutation.operation.row := by
  rw [content, h]

theorem content_of_none {key : Path Kind Id} (h : buffered.get? key = none) :
    content snapshot buffered key = snapshot key := by
  rw [content, h]

/-! ## Identities -/

omit [DecidableEq Kind] [DecidableEq Id] in
theorem transactionMutationKey_eq_some {kind : Kind} {id : Id} {data : Option Data}
    {override : Override Kind Id} {key : Path Kind Id} :
    transactionMutationKey resolver kind id data override = some key ↔
      ∃ ancestor, datastoreAncestorForWrite resolver kind id data override = some ancestor ∧
        key = ancestor ++ [⟨kind, id⟩] := by
  rw [transactionMutationKey, Option.map_eq_some_iff]
  simp only [eq_comm (a := key)]

theorem prefix_of_shows {ancestor : Path Kind Id} (h : query.shows resolver ancestor = true) :
    query.ancestor <+: ancestor := by
  rw [Query.shows, Bool.and_eq_true, List.isPrefixOf_iff_prefix] at h
  exact h.1

/-- The identity of a mutation that a query shows is its key. -/
theorem identityAncestor_eq {mutation : Mutation Kind Id Data} {ancestor : Path Kind Id}
    (h : datastoreAncestorForWrite resolver mutation.kind mutation.id mutation.operation.row
      mutation.override = some ancestor) (hbelow : query.ancestor <+: ancestor) :
    identityAncestor resolver mutation query.ancestor = ancestor := by
  rw [identityAncestor]
  cases hoverride : mutation.override with
  | some ancestor' =>
    rw [hoverride] at h
    exact Option.some.inj h
  | none =>
    cases hresolver : resolver mutation.kind with
    | none =>
      simp only [datastoreAncestorForWrite, hoverride, hresolver, Option.some.injEq] at h
      subst h
      exact List.prefix_nil.mp hbelow
    | some resolve =>
      cases hrow : mutation.operation.row with
      | none => simp only [datastoreAncestorForWrite, hoverride, hresolver, hrow, reduceCtorEq] at h
      | some data =>
        simp only [datastoreAncestorForWrite, hoverride, hresolver, hrow, Option.some.injEq] at h
        subst h
        dsimp only
        split <;> rename_i hresolved
        · rfl
        · rw [Bool.and_eq_true, List.isPrefixOf_iff_prefix, not_and_or] at hresolved
          rcases hresolved with hempty | hnot
          · have hnil : resolve mutation.id data = [] := by simpa using hempty
            rw [hnil] at hbelow ⊢
            exact List.prefix_nil.mp hbelow
          · exact absurd hbelow hnot

/-- A query lays a mutation over the entity of its key, if it shows the entity. -/
theorem overlays_eq {mutation : Mutation Kind Id Data} {ancestor : Path Kind Id}
    (h : datastoreAncestorForWrite resolver mutation.kind mutation.id mutation.operation.row
      mutation.override = some ancestor) :
    query.overlays resolver mutation =
      if mutation.kind = query.kind ∧ query.shows resolver ancestor = true then
        some (ancestor ++ [⟨mutation.kind, mutation.id⟩])
      else none := by
  rw [Query.overlays, h]
  by_cases hkind : mutation.kind = query.kind
  · by_cases hshows : query.shows resolver ancestor = true
    · rw [if_pos hkind, if_pos ⟨hkind, hshows⟩]
      dsimp only
      rw [if_pos hshows, identityAncestor_eq h (prefix_of_shows hshows)]
    · rw [if_pos hkind, if_neg fun hboth => hshows hboth.2]
      dsimp only
      rw [if_neg hshows]
  · rw [if_neg hkind, if_neg fun hboth => hkind hboth.1]

/-- The entities that a query shows. -/
def Shown (resolver : Resolvers Kind Id Data) (query : Query Kind Id Data) (key : Path Kind Id) : Prop :=
  ∃ ancestor id, key = ancestor ++ [⟨query.kind, id⟩] ∧ query.shows resolver ancestor = true

theorem overlays_net (h : Net resolver snapshot buffered) {key : Path Kind Id}
    {mutation : Mutation Kind Id Data} (hget : buffered.get? key = some mutation) {key' : Path Kind Id} :
    query.overlays resolver mutation = some key' ↔ key' = key ∧ Shown resolver query key := by
  obtain ⟨ancestor, hancestor, rfl⟩ := transactionMutationKey_eq_some.mp (h key mutation hget).1
  rw [overlays_eq hancestor, Option.ite_none_right_eq_some, Option.some.injEq]
  constructor
  · rintro ⟨⟨hkind, hshows⟩, rfl⟩
    exact ⟨rfl, ancestor, mutation.id, by rw [hkind], hshows⟩
  · rintro ⟨rfl, ancestor', id, heq, hshows⟩
    obtain ⟨rfl, hpart⟩ := List.append_inj' heq rfl
    obtain ⟨hkind, -⟩ := KeyPart.mk.inj (List.singleton_inj.mp hpart)
    exact ⟨⟨hkind, hshows⟩, rfl⟩

/-! ## Base rows -/

/-- What the SDK returns for a base query: each stored entity of its kind that it accepts once, and
perhaps others. -/
structure Scans (query : Query Kind Id Data) (contents : Contents Kind Id Data)
    (entities : List (Entity Kind Id Data)) : Prop where
  nodup : (entities.map Prod.fst).Nodup
  stored : ∀ {key data}, (key, data) ∈ entities → contents key = some data ∧
    ∃ ancestor id, key = ancestor ++ [⟨query.kind, id⟩]
  complete : ∀ {ancestor id data}, contents (ancestor ++ [⟨query.kind, id⟩]) = some data →
    query.ancestor <+: ancestor → query.accepts data = true →
      (ancestor ++ [⟨query.kind, id⟩], data) ∈ entities

theorem baseRows_get? {deleted : List (Path Kind Id)} {base : List (Entity Kind Id Data)}
    {rows rows' : JsMap (Path Kind Id) Data} (h : baseRows resolver deleted query base rows = some rows')
    {key : Path Kind Id} {data : Data} : rows'.get? key = some data ↔
      rows.get? key = some data ∨ (key, data) ∈ base ∧ key ∉ deleted := by
  induction base generalizing rows with
  | nil =>
    cases h
    simp
  | cons entity base ih =>
    obtain ⟨key', data'⟩ := entity
    rw [baseRows] at h
    split at h <;> rename_i hdeleted
    · rw [ih h, List.mem_cons]
      constructor
      · exact fun h' => h'.imp_right fun hmem => ⟨Or.inr hmem.1, hmem.2⟩
      · rintro (hrow | ⟨heq | hmem, hkey⟩)
        · exact Or.inl hrow
        · cases heq
          exact absurd hdeleted hkey
        · exact Or.inr ⟨hmem, hkey⟩
    · split at h
      · cases h
      split at h <;> rename_i hhas
      · cases h
      rw [Bool.not_eq_true, JsMap.has_eq_false] at hhas
      rw [ih h, JsMap.get?_set, List.mem_cons]
      split <;> rename_i hkey
      · subst hkey
        dsimp only at hhas hdeleted ⊢
        rw [hhas, Option.some.injEq]
        constructor
        · rintro (rfl | hmem)
          · exact Or.inr ⟨Or.inl rfl, hdeleted⟩
          · exact Or.inr ⟨Or.inr hmem.1, hmem.2⟩
        · rintro (hrow | ⟨heq | hmem, hkey⟩)
          · cases hrow
          · cases heq
            exact Or.inl rfl
          · exact Or.inr ⟨hmem, hkey⟩
      · dsimp only at hkey
        have hne : (key, data) ≠ (key', data') := by
          rintro heq
          exact hkey (Prod.mk.inj heq).1.symm
        rw [or_iff_right hne]

/-- Every buffered mutation of a shown entity decides about its row. -/
theorem foldl_overlayMutation {entries : List (Path Kind Id × Mutation Kind Id Data)}
    (hnodup : (entries.map Prod.fst).Nodup)
    (hentries : ∀ entry ∈ entries, ∀ key', query.overlays resolver entry.2 = some key' ↔
      key' = entry.1 ∧ Shown resolver query entry.1) {rows : JsMap (Path Kind Id) Data}
    {key : Path Kind Id} :
    ((∀ mutation, (key, mutation) ∈ entries → ¬Shown resolver query key) →
      (entries.foldl (fun rows entry => overlayMutation resolver query rows entry.2) rows).get? key =
        rows.get? key) ∧
    (∀ mutation, (key, mutation) ∈ entries → Shown resolver query key →
      (entries.foldl (fun rows entry => overlayMutation resolver query rows entry.2) rows).get? key =
        mutation.operation.row) := by
  induction entries generalizing rows with
  | nil =>
    refine ⟨fun _ => rfl, fun _ hmem => ?_⟩
    cases hmem
  | cons entry entries ih =>
    obtain ⟨key', mutation'⟩ := entry
    rw [List.map_cons, List.nodup_cons] at hnodup
    obtain ⟨hself, hrest⟩ := List.forall_mem_cons.mp hentries
    obtain ⟨hnot, hshown⟩ := @ih hnodup.2 hrest (overlayMutation resolver query rows mutation')
    have hstep : (key' = key ∧ Shown resolver query key ∧
        (overlayMutation resolver query rows mutation').get? key = mutation'.operation.row) ∨
        (¬(key' = key ∧ Shown resolver query key) ∧
          (overlayMutation resolver query rows mutation').get? key = rows.get? key) := by
      rw [overlayMutation]
      cases hoverlays : query.overlays resolver mutation' with
      | none =>
        refine Or.inr ⟨?_, rfl⟩
        rintro ⟨rfl, hshows⟩
        cases hoverlays.symm.trans ((hself _).mpr ⟨rfl, hshows⟩)
      | some key'' =>
        obtain ⟨rfl, hshows⟩ := (hself key'').mp hoverlays
        by_cases hkey : key'' = key
        · subst hkey
          refine Or.inl ⟨rfl, hshows, ?_⟩
          cases mutation'.operation.row with
          | none => exact JsMap.get?_delete_self _ _
          | some data => exact JsMap.get?_set_self _ _ _
        · refine Or.inr ⟨fun hboth => hkey hboth.1, ?_⟩
          cases mutation'.operation.row with
          | none => exact JsMap.get?_delete_of_ne _ hkey
          | some data => exact JsMap.get?_set_of_ne _ _ hkey
    rw [List.foldl_cons]
    constructor
    · intro hnone
      rw [hnot fun mutation hmem => hnone mutation (List.mem_cons_of_mem _ hmem)]
      rcases hstep with ⟨rfl, hshows, -⟩ | ⟨-, hsame⟩
      · exact absurd hshows (hnone mutation' List.mem_cons_self)
      · exact hsame
    · intro mutation hmem hshows
      rcases List.mem_cons.mp hmem with heq | hmem
      · cases heq
        rw [hnot]
        · rcases hstep with ⟨-, -, hrow⟩ | ⟨hneither, -⟩
          · exact hrow
          · exact absurd ⟨rfl, hshows⟩ hneither
        · intro mutation hmem
          exact absurd (List.mem_map_of_mem hmem) hnodup.1
      · exact hshown mutation hmem hshows

/-! ## Sorting -/

omit [DecidableEq Kind] [DecidableEq Id] in
theorem insertRow_perm (compare : Data → Data → Ordering) (row : Data) (sorted : List Data) :
    (insertRow compare row sorted).Perm (row :: sorted) := by
  induction sorted with
  | nil => exact .refl _
  | cons first rest ih =>
    rw [insertRow]
    split
    · exact .refl _
    · exact (ih.cons first).trans (.swap row first rest)

omit [DecidableEq Kind] [DecidableEq Id] in
theorem insertRow_sorted {compare : Data → Data → Ordering} (hcompare : Std.TransCmp compare) {row : Data}
    {sorted : List Data} (h : sorted.Pairwise fun a b => compare b a ≠ .lt) :
    (insertRow compare row sorted).Pairwise fun a b => compare b a ≠ .lt := by
  induction sorted with
  | nil => exact List.pairwise_singleton ..
  | cons first rest ih =>
    obtain ⟨hfirst, hrest⟩ := List.pairwise_cons.mp h
    rw [insertRow]
    split <;> rename_i hlt
    · refine List.pairwise_cons.mpr ⟨fun other hother => ?_, h⟩
      intro hother'
      rcases List.mem_cons.mp hother with rfl | hother
      · cases (Std.OrientedCmp.gt_of_lt hlt).symm.trans hother'
      · exact hfirst other hother (Std.TransCmp.lt_trans hother' hlt)
    · refine List.pairwise_cons.mpr ⟨fun other hother => ?_, ih hrest⟩
      rcases List.mem_cons.mp ((insertRow_perm compare row rest).mem_iff.mp hother) with rfl | hother
      · exact hlt
      · exact hfirst other hother

omit [DecidableEq Kind] [DecidableEq Id] in
theorem sortRows_sorts {compare : Data → Data → Ordering} (hcompare : Std.TransCmp compare)
    (rows : List Data) : (sortRows compare rows).Perm rows ∧
      (sortRows compare rows).Pairwise fun a b => compare b a ≠ .lt := by
  have h : ∀ sorted : List Data, (sorted.Pairwise fun a b => compare b a ≠ .lt) →
      (rows.foldl (fun sorted row => insertRow compare row sorted) sorted).Perm (sorted ++ rows) ∧
        (rows.foldl (fun sorted row => insertRow compare row sorted) sorted).Pairwise
          fun a b => compare b a ≠ .lt := by
    induction rows with
    | nil =>
      intro sorted hsorted
      rw [List.append_nil]
      exact ⟨.refl _, hsorted⟩
    | cons row rows ih =>
      intro sorted hsorted
      obtain ⟨hperm, hpairwise⟩ := ih _ (insertRow_sorted hcompare hsorted)
      have hinsert := (insertRow_perm compare row sorted).append_right rows
      exact ⟨(hperm.trans hinsert).trans List.perm_middle.symm, hpairwise⟩
  exact h [] .nil

/-! ## Listing -/

/-- A query over the buffer lists what is shown. -/
theorem queried_lists {base : List (Entity Kind Id Data)} (hnet : Net resolver snapshot buffered)
    (hscan : Scans query snapshot base) {rows : JsMap (Path Kind Id) Data}
    (h : rowsByIdentity resolver buffered query base = some rows) :
    Lists resolver (content snapshot buffered) query
      (sortRows query.compare ((rows.entries.map Prod.snd).filter query.accepts)) := by
  rw [rowsByIdentity, Option.ite_none_right_eq_some, List.all_eq_true] at h
  obtain ⟨hscope, hrows⟩ := h
  obtain ⟨baseline, hbaseline, hfold⟩ := Option.map_eq_some_iff.mp hrows
  have hbase {key : Path Kind Id} {data : Data} : baseline.get? key = some data ↔
      (key, data) ∈ base ∧ key ∉ deletedIdentities resolver buffered query := by
    rw [baseRows_get? hbaseline, JsMap.get?_empty]
    simp
  have hentries : ∀ entry ∈ buffered.entries, ∀ key', query.overlays resolver entry.2 = some key' ↔
      key' = entry.1 ∧ Shown resolver query entry.1 := by
    intro entry hentry key'
    exact overlays_net hnet (JsMap.mem_entries_iff.mp hentry)
  have hoverlay := @foldl_overlayMutation _ _ _ _ _ resolver query buffered.entries buffered.nodup hentries
    baseline
  rw [hfold] at hoverlay
  have hshown {key : Path Kind Id} {data : Data} (hmem : (key, data) ∈ base) :
      Shown resolver query key := by
    obtain ⟨-, ancestor, id, rfl⟩ := hscan.stored hmem
    refine ⟨ancestor, id, rfl, ?_⟩
    have hentity := hscope _ hmem
    rwa [Query.entityInScope, List.dropLast_concat] at hentity
  -- The rows are those that are shown, and all that the query accepts.
  have hsound {key : Path Kind Id} {data : Data} (hget : rows.get? key = some data) :
      content snapshot buffered key = some data ∧ Shown resolver query key := by
    cases hbuffered : buffered.get? key with
    | none =>
      have hmem : (key, data) ∈ base := by
        rw [(hoverlay).1] at hget
        · exact (hbase.mp hget).1
        · intro mutation hmutation
          cases hbuffered.symm.trans (JsMap.mem_entries_iff.mp hmutation)
      rw [content_of_none hbuffered]
      exact ⟨(hscan.stored hmem).1, hshown hmem⟩
    | some mutation =>
      have hmutation := JsMap.mem_entries_iff.mpr hbuffered
      by_cases hshows : Shown resolver query key
      · rw [hoverlay.2 mutation hmutation hshows] at hget
        rw [content_of_some hbuffered]
        exact ⟨hget, hshows⟩
      · rw [hoverlay.1 fun _ _ => hshows] at hget
        exact absurd (hshown (hbase.mp hget).1) hshows
  have hcomplete {key : Path Kind Id} {data : Data} (hcontent : content snapshot buffered key = some data)
      (hshows : Shown resolver query key) (haccepts : query.accepts data = true) :
      rows.get? key = some data := by
    cases hbuffered : buffered.get? key with
    | some mutation =>
      rw [hoverlay.2 mutation (JsMap.mem_entries_iff.mpr hbuffered) hshows, ← hcontent,
        content_of_some hbuffered]
    | none =>
      rw [content_of_none hbuffered] at hcontent
      rw [hoverlay.1]
      · refine hbase.mpr ⟨?_, fun hdeleted => ?_⟩
        · obtain ⟨ancestor, id, rfl, hshows⟩ := hshows
          exact hscan.complete hcontent (prefix_of_shows hshows) haccepts
        · obtain ⟨entry, hentry, hdelete⟩ := List.mem_filterMap.mp hdeleted
          have hoverlays : query.overlays resolver entry.2 = some key := by
            split at hdelete
            · exact hdelete
            · cases hdelete
          obtain ⟨rfl, -⟩ := (hentries entry hentry key).mp hoverlays
          cases hbuffered.symm.trans (JsMap.mem_entries_iff.mp hentry)
      · intro mutation hmutation
        cases hbuffered.symm.trans (JsMap.mem_entries_iff.mp hmutation)
  obtain ⟨hperm, hsorted⟩ := sortRows_sorts query.ordered
    ((rows.entries.map Prod.snd).filter query.accepts)
  refine ⟨hsorted, rows.entries.filter fun entity => query.accepts entity.2, ?_, ?_, ?_⟩
  · exact rows.nodup.sublist (List.filter_sublist.map Prod.fst)
  · have hfilter : ((rows.entries.filter fun entity => query.accepts entity.2).map Prod.snd) =
        (rows.entries.map Prod.snd).filter query.accepts :=
      List.filter_map.symm
    rw [hfilter]
    exact hperm
  · intro key data
    rw [List.mem_filter, JsMap.mem_entries_iff]
    constructor
    · rintro ⟨hget, haccepts⟩
      exact ⟨(hsound hget).1, (hsound hget).2, haccepts⟩
    · rintro ⟨hcontent, hshows, haccepts⟩
      exact ⟨hcomplete hcontent hshows haccepts, haccepts⟩

end ActiveTs.Datastore.Buffered
