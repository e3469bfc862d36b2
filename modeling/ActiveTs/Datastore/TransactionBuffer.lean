import ActiveTs.Datastore.TransactionOverlay

/-! # The buffer of a Datastore transaction

A mutation that is buffered, or refused for what is shown of its entity, does what it would do where the
earlier ones had been applied, and the flush leaves the same. -/

namespace ActiveTs.Datastore.Buffered

universe u

variable {Kind Id Data Summary : Type u} [DecidableEq Kind] [DecidableEq Id]
  {resolver : Resolvers Kind Id Data} {snapshot : Contents Kind Id Data}
  {buffered : JsMap (Path Kind Id) (Mutation Kind Id Data)} {s : State Kind Id Data Summary}

/-! ## Entries -/

@[simp] theorem setRow_self (contents : Contents Kind Id Data) (key : Path Kind Id) (row : Option Data) :
    setRow contents key row key = row :=
  if_pos rfl

theorem setRow_of_ne (contents : Contents Kind Id Data) {key other : Path Kind Id} (row : Option Data)
    (h : other ≠ key) : setRow contents key row other = contents other :=
  if_neg h

theorem setRow_same {contents : Contents Kind Id Data} {key : Path Kind Id} {row : Option Data}
    (h : contents key = row) : setRow contents key row = contents := by
  funext other
  by_cases hkey : other = key
  · rw [hkey, setRow_self, h]
  · exact setRow_of_ne _ _ hkey

theorem content_set (key : Path Kind Id) (mutation : Mutation Kind Id Data) :
    content snapshot (buffered.set key mutation) =
      setRow (content snapshot buffered) key mutation.operation.row := by
  funext other
  by_cases h : other = key
  · rw [h, setRow_self, content_of_some (JsMap.get?_set_self ..)]
  · rw [setRow_of_ne _ _ h, content, content, JsMap.get?_set_of_ne _ _ (Ne.symm h)]

theorem content_delete {key : Path Kind Id} :
    content snapshot (buffered.delete key) = setRow (content snapshot buffered) key (snapshot key) := by
  funext other
  by_cases h : other = key
  · rw [h, setRow_self, content_of_none (JsMap.get?_delete_self ..)]
  · rw [setRow_of_ne _ _ h, content, content, JsMap.get?_delete_of_ne _ (Ne.symm h)]

theorem Net.empty : Net resolver snapshot .empty := by
  intro key mutation h
  cases h

theorem Net.set (h : Net resolver snapshot buffered) {key : Path Kind Id}
    {mutation : Mutation Kind Id Data}
    (hkey : transactionMutationKey resolver mutation.kind mutation.id mutation.operation.row
      mutation.override = some key) (hnet : mutation.operation.Net (snapshot key)) :
    Net resolver snapshot (buffered.set key mutation) := by
  intro key' mutation' hget
  rw [JsMap.get?_set] at hget
  split at hget <;> rename_i heq
  · subst heq
    cases hget
    exact ⟨hkey, hnet⟩
  · exact h key' mutation' hget

theorem Net.delete (h : Net resolver snapshot buffered) (key : Path Kind Id) :
    Net resolver snapshot (buffered.delete key) := by
  intro key' mutation' hget
  rw [JsMap.get?_delete] at hget
  split at hget
  · cases hget
  · exact h key' mutation' hget

/-- What the buffered operation of an entity is. -/
theorem Net.get? (h : Net resolver snapshot buffered) {key : Path Kind Id} {operation : Operation Data}
    (hget : (buffered.get? key).map Mutation.operation = some operation) :
    content snapshot buffered key = operation.row ∧ operation.Net (snapshot key) := by
  obtain ⟨mutation, hmutation, rfl⟩ := Option.map_eq_some_iff.mp hget
  exact ⟨content_of_some hmutation, (h key mutation hmutation).2⟩

/-! ## Mutations -/

namespace Op

def mutates : Op Kind Id Data Summary → Option (Path Kind Id)
  | create key _ _ => some key
  | update key _ _ => some key
  | delete key => some key
  | _ => none

end Op

/-- What a segment of a mutation of `key` does: nothing yet, where the buffer says nothing of the entity, or
what the operation does directly. -/
inductive Effect (resolver : Resolvers Kind Id Data) (snapshot : Contents Kind Id Data)
    (buffered : JsMap (Path Kind Id) (Mutation Kind Id Data)) (key : Path Kind Id)
    (call : Call Kind Id Data Summary) : Segment Kind Id Data Summary → Prop
  | checking (h : buffered.get? key = none) : Effect resolver snapshot buffered key call ⟨.checking, none⟩
  | returned {result : Result Data Summary} {op : Op Kind Id Data Summary}
    {change : Option (Path Kind Id × Option (Mutation Kind Id Data))}
    (hop : operations resolver call result = [op]) (hkey : op.mutates = some key)
    (hdirect : Direct resolver (content snapshot buffered) op
      (content snapshot (State.changeBuffer buffered change)))
    (hnet : Net resolver snapshot (State.changeBuffer buffered change)) :
    Effect resolver snapshot buffered key call ⟨.returned result, change⟩

theorem runMutation_effect (hnet : Net resolver snapshot s.bufferedMutations) {call : Call Kind Id Data Summary}
    {key : Path Kind Id} (hkey : call.mutates resolver = some key) :
    Effect resolver snapshot s.bufferedMutations key call (s.runMutation resolver call) := by
  cases call with
  | create kind id data override =>
    have hop (result : Result Data Summary) :
        operations resolver (.create kind id data override) result = [.create key data result] := by
      rw [operations, hkey]
      rfl
    rw [Call.mutates] at hkey
    simp only [State.runMutation, hkey]
    cases hget : (s.bufferedMutations.get? key).map Mutation.operation with
    | none => exact .checking (Option.map_eq_none_iff.mp hget)
    | some operation =>
      obtain ⟨hcontent, hstored⟩ := hnet.get? hget
      cases operation with
      | create data' =>
        refine .returned (hop _) rfl (.conflict data ?_) hnet
        rw [hcontent]
        exact Option.some_ne_none _
      | update data' =>
        refine .returned (hop _) rfl (.conflict data ?_) hnet
        rw [hcontent]
        exact Option.some_ne_none _
      | delete existed =>
        obtain ⟨hstored, rfl⟩ := hstored
        refine .returned (hop _) rfl ?_ (hnet.set hkey hstored)
        rw [State.changeBuffer, content_set]
        exact .create data hcontent
  | update kind id data override =>
    have hop (result : Result Data Summary) :
        operations resolver (.update kind id data override) result = [.update key data result] := by
      rw [operations, hkey]
      rfl
    rw [Call.mutates] at hkey
    simp only [State.runMutation, hkey]
    cases hget : (s.bufferedMutations.get? key).map Mutation.operation with
    | none => exact .checking (Option.map_eq_none_iff.mp hget)
    | some operation =>
      obtain ⟨hcontent, hstored⟩ := hnet.get? hget
      cases operation with
      | delete existed => exact .returned (hop _) rfl (.notFound data hcontent) hnet
      | create data' =>
        refine .returned (hop _) rfl ?_ (hnet.set hkey hstored)
        rw [State.changeBuffer, content_set]
        refine .update data ?_
        rw [hcontent]
        exact Option.some_ne_none _
      | update data' =>
        refine .returned (hop _) rfl ?_ (hnet.set hkey hstored)
        rw [State.changeBuffer, content_set]
        refine .update data ?_
        rw [hcontent]
        exact Option.some_ne_none _
  | delete kind id override =>
    have hop : operations resolver (.delete kind id override : Call Kind Id Data Summary) .done =
        [.delete key] := by
      rw [operations, hkey]
      rfl
    rw [Call.mutates] at hkey
    simp only [State.runMutation, hkey]
    cases hget : (s.bufferedMutations.get? key).map Mutation.operation with
    | none => exact .checking (Option.map_eq_none_iff.mp hget)
    | some operation =>
      obtain ⟨hcontent, hstored⟩ := hnet.get? hget
      cases operation with
      | create data' =>
        refine .returned hop rfl ?_ (hnet.delete key)
        rw [State.changeBuffer, content_delete, hstored]
        exact .delete _ key
      | delete existed =>
        refine .returned hop rfl ?_ hnet
        have hdirect : Direct resolver (content snapshot s.bufferedMutations)
            (.delete key : Op Kind Id Data Summary) _ := .delete _ key
        have hsame : setRow (content snapshot s.bufferedMutations) key none = _ := setRow_same hcontent
        rwa [hsame] at hdirect
      | update data' =>
        refine .returned hop rfl ?_ (hnet.set hkey ⟨hstored, rfl⟩)
        rw [State.changeBuffer, content_set]
        exact .delete _ key
  | _ => cases hkey

theorem checked_effect (hnet : Net resolver snapshot buffered) {call : Call Kind Id Data Summary}
    {key : Path Kind Id} (hkey : call.mutates resolver = some key) (hnone : buffered.get? key = none) :
    Effect resolver snapshot buffered key call (State.checked resolver snapshot call) := by
  have hcontent : content snapshot buffered key = snapshot key := content_of_none hnone
  cases call with
  | create kind id data override =>
    have hop (result : Result Data Summary) :
        operations resolver (.create kind id data override) result = [.create key data result] := by
      rw [operations, hkey]
      rfl
    rw [Call.mutates] at hkey
    simp only [State.checked, hkey]
    cases hstored : snapshot key with
    | none =>
      refine .returned (hop _) rfl ?_ (hnet.set hkey hstored)
      rw [State.changeBuffer, content_set]
      exact .create data (hcontent.trans hstored)
    | some row =>
      refine .returned (hop _) rfl (.conflict data ?_) hnet
      rw [hcontent, hstored]
      exact Option.some_ne_none _
  | update kind id data override =>
    have hop (result : Result Data Summary) :
        operations resolver (.update kind id data override) result = [.update key data result] := by
      rw [operations, hkey]
      rfl
    rw [Call.mutates] at hkey
    simp only [State.checked, hkey]
    cases hstored : snapshot key with
    | none => exact .returned (hop _) rfl (.notFound data (hcontent.trans hstored)) hnet
    | some row =>
      have hne : snapshot key ≠ none := by
        rw [hstored]
        exact Option.some_ne_none _
      refine .returned (hop _) rfl ?_ (hnet.set hkey hne)
      rw [State.changeBuffer, content_set]
      exact .update data (hcontent ▸ hne)
  | delete kind id override =>
    have hop : operations resolver (.delete kind id override : Call Kind Id Data Summary) .done =
        [.delete key] := by
      rw [operations, hkey]
      rfl
    rw [Call.mutates] at hkey
    simp only [State.checked, hkey]
    cases hstored : snapshot key with
    | none =>
      refine .returned hop rfl ?_ hnet
      have hdirect : Direct resolver (content snapshot buffered)
          (.delete key : Op Kind Id Data Summary) _ := .delete _ key
      rwa [setRow_same (hcontent.trans hstored)] at hdirect
    | some row =>
      have hne : snapshot key ≠ none := by
        rw [hstored]
        exact Option.some_ne_none _
      refine .returned hop rfl ?_ (hnet.set hkey ⟨hne, rfl⟩)
      rw [State.changeBuffer, content_set]
      exact .delete _ key
  | _ => cases hkey

/-! ## Flush -/

/-- A net mutation can be applied where its entity is as in the snapshot. -/
theorem Mutation.apply_net {mutation : Mutation Kind Id Data} {key : Path Kind Id}
    (hkey : transactionMutationKey resolver mutation.kind mutation.id mutation.operation.row
      mutation.override = some key) {contents : Contents Kind Id Data}
    (hnet : mutation.operation.Net (contents key)) :
    mutation.apply resolver contents = some (setRow contents key mutation.operation.row) := by
  simp only [Mutation.apply, hkey]
  cases hoperation : mutation.operation with
  | create data =>
    rw [hoperation] at hnet
    rw [Operation.Net] at hnet
    simp only [hnet]
    rfl
  | update data =>
    rw [hoperation] at hnet
    obtain ⟨row, hrow⟩ := Option.ne_none_iff_exists'.mp hnet
    simp only [hrow]
    rfl
  | delete existed => rfl

theorem foldlM_apply {entries : List (Path Kind Id × Mutation Kind Id Data)}
    (hnodup : (entries.map Prod.fst).Nodup) {contents : Contents Kind Id Data}
    (hentries : ∀ entry ∈ entries, transactionMutationKey resolver entry.2.kind entry.2.id
      entry.2.operation.row entry.2.override = some entry.1 ∧ entry.2.operation.Net (contents entry.1)) :
    entries.foldlM (fun contents entry => entry.2.apply resolver contents) contents =
      some fun key =>
        ((JsMap.lookup key entries).map fun mutation => mutation.operation.row).getD (contents key) := by
  induction entries generalizing contents with
  | nil => rfl
  | cons entry entries ih =>
    obtain ⟨key, mutation⟩ := entry
    rw [List.map_cons, List.nodup_cons] at hnodup
    obtain ⟨⟨hkey, hnet⟩, hrest⟩ := List.forall_mem_cons.mp hentries
    rw [List.foldlM_cons, Mutation.apply_net hkey hnet, Option.bind_eq_bind, Option.bind_some]
    have hother {key' : Path Kind Id} (hmem : key' ∈ entries.map Prod.fst) : key' ≠ key := by
      rintro rfl
      exact hnodup.1 hmem
    rw [ih hnodup.2]
    · congr 1
      funext key'
      by_cases h : key = key'
      · subst h
        rw [JsMap.lookup_eq_none.mpr hnodup.1, JsMap.lookup, if_pos rfl]
        exact setRow_self contents key _
      · rw [JsMap.lookup, if_neg h, setRow_of_ne _ _ (Ne.symm h)]
    · intro entry hentry
      rw [setRow_of_ne _ _ (hother (List.mem_map_of_mem hentry))]
      exact hrest entry hentry

/-- The flush stages only creates of entities that are absent and updates and deletes of existing ones, and
leaves what is shown. -/
theorem flush_eq (hnet : Net resolver snapshot buffered) :
    flush resolver snapshot buffered = some (content snapshot buffered) := by
  rw [flush, foldlM_apply buffered.nodup]
  · congr 1
    funext key
    change ((buffered.get? key).map _).getD _ = _
    rw [content]
    cases buffered.get? key <;> rfl
  · intro entry hentry
    exact hnet entry.1 entry.2 (JsMap.mem_entries_iff.mp hentry)

end ActiveTs.Datastore.Buffered
