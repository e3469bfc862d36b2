import ActiveTs.EntityIds.Keys
import ActiveTs.Lib.Buckets
import ActiveTs.Lib.JsDateOrder
import ActiveTs.Query.StoredData

/-! # Relations

A relation leads from an owner to the rows of a target model whose foreign key is the owner's local key.
The ref of an owner resolves it with a query of its own. A preload resolves it for a list of owners:
their local keys are asked for in chunks, and the rows are handed out by their keys. -/

namespace ActiveTs.Query.Relations

open EntityIds (EntityId isSafeInteger)
open Utf16 (Units ofString encode decimal)

inductive RelationError
  | data (error : DataError)
  /-- "… requires string, number, boolean, Date, or null values.", or finite safe numbers and dates of
  the years 0000 through 9999. -/
  | notPortable
  | entityId (error : EntityIds.ValidationError)
  /-- "… must be a string or safe integer." -/
  | notEntityId
  /-- A normalized operand is refused. -/
  | operand
  /-- "… so its ancestor resolver must return a Datastore key." -/
  | noAncestor
  /-- "… so declare relation.ancestor or datastore.ancestorFields for automatic ancestor inference." -/
  | noAncestorFields
  /-- "… cannot infer Datastore ancestor field …" -/
  | missingAncestorField (field : Units)
  | overlappingAncestorField (field : Units)
  /-- "… cannot choose one … result because owner data lacks target Datastore ancestor …" -/
  | ambiguous
  /-- "Relation … is not registered on …" -/
  | notRegistered (relation : Units)
  /-- "include original result contains duplicate id …" -/
  | duplicateId

/-- An instance of a model: the entity that it is of, and its data as it was read. -/
structure Item where
  entity : Nat
  data : Data

def fieldValue (data : Data) (field : Units) : Except RelationError Data :=
  (valueFor data field).mapError .data

/-! ## Keys -/

/-- `assertPortableScalar` and the key of the scalar. -/
def portableScalarKey : Data → Except RelationError Units
  | .null => .ok (ofString "null:")
  | .date time =>
    if JsDate.Portable time then .ok (ofString "date:" ++ encode (JsDate.isoString time))
    else .error .notPortable
  | .boolean value => .ok (ofString "boolean:" ++ ofString (toString value))
  | .number .negativeZero => .ok (ofString "number:" ++ encode (JsNumber.text .negativeZero))
  | .number (.finite value) =>
    if |value.1| ≤ 2 ^ 53 - 1 then .ok (ofString "number:" ++ encode (JsNumber.text (.finite value)))
    else .error .notPortable
  | .string value => .ok (ofString "string:" ++ value)
  | _ => .error .notPortable

def assertSafeEntityId : Data → Except RelationError Unit
  | .string value => (EntityIds.assertSafeEntityId (.string value)).mapError .entityId
  | .number value => (EntityIds.assertSafeEntityId (.number value)).mapError .entityId
  | _ => .error .notEntityId

inductive RelationKind
  | one
  | many
  deriving DecidableEq

/-- What a resolver of ancestors of the target is given. The id is there where the foreign key is the
id; to read it elsewhere is an error of the resolver. -/
structure AncestorInput where
  data : List (Units × Data)
  id : Option Data

/-- `Key` are the normalized Datastore keys; equal ones have the same identity. -/
structure Relation (Key : Type) where
  kind : RelationKind
  target : Units
  localKey : Units
  foreignKey : Units
  preload : List Units
  ancestor : Option (Item → Except RelationError (Option Key))

/-- `ResolvedModelMeta`, as far as relations read it. -/
structure ModelMeta (Key : Type) where
  idField : Units
  relations : List (Units × Relation Key)
  ancestor : Option (AncestorInput → Except RelationError (Option Key))
  ancestorFields : Option (List Units)

/-- The models, and what their stores hold and answer while nothing is written. -/
structure Content (Key : Type) where
  model : Units → ModelMeta Key
  /-- The rows of a model in the order in which its store lists them. -/
  rows : Units → List Item
  /-- The rows whose field equals an operand, once field types and codecs have normalized it. -/
  selects : Units → Units → Data → Except RelationError (Item → Bool)
  /-- What an operand selects does not depend on more than its key: two operands of one key are the
  same scalar. -/
  selects_key (model field : Units) (a b : Data) (key : Units) : portableScalarKey a = .ok key →
    portableScalarKey b = .ok key → selects model field a = selects model field b
  under : Units → Key → Item → Bool
  /-- `loadById`, or `find` below an ancestor. -/
  get : Units → Option Key → Data → Except RelationError (Option Item)
  /-- Whether the store of a model supports `select` with these fields. -/
  selectable : Units → List Units → Bool

section
variable {Key : Type}

/-! ## Ancestors and join keys -/

/-- The loop of `setInferredDataField`. -/
def setInferredDataField (field : Units) (value : Data) :
    List Units → List (Units × Data) → Except RelationError (List (Units × Data))
  | [], data => .ok data
  | [part], data => .ok (JsMap.insertEntry part value data)
  | part :: next :: rest, data =>
    match (JsMap.lookup part data).getD .undefined with
    | .undefined => do
      let inner ← setInferredDataField field value (next :: rest) []
      .ok (JsMap.insertEntry part (.object inner) data)
    | .object existing => do
      let inner ← setInferredDataField field value (next :: rest) existing
      .ok (JsMap.insertEntry part (.object inner) data)
    | _ => .error (.overlappingAncestorField field)

/-- The value of an ancestor field: the foreign key has the value that it is matched with. -/
def ancestorFieldValue (relation : Relation Key) (foreignValue data : Data) (field : Units) :
    Except RelationError Data :=
  if field = relation.foreignKey then .ok foreignValue else fieldValue data field

def inferredData (relation : Relation Key) (localValue ownerData : Data) :
    List Units → List (Units × Data) → Except RelationError (List (Units × Data))
  | [], data => .ok data
  | field :: fields, data => do
    match ← ancestorFieldValue relation localValue ownerData field with
    | .undefined => .error (.missingAncestorField field)
    | value => do
      let data ← setInferredDataField field value (partsOf field) data
      inferredData relation localValue ownerData fields data

def inferRelationDatastoreAncestor (target : ModelMeta Key) (relation : Relation Key) (item : Item) :
    Except RelationError (Option Key) :=
  match target.ancestor with
  | none => .ok none
  | some resolver =>
    match target.ancestorFields with
    | none => .error .noAncestorFields
    | some ancestorFields => do
      let localValue ← fieldValue item.data relation.localKey
      if localValue.missing then .ok none
      else do
        let data ← inferredData relation localValue item.data ancestorFields []
        if relation.foreignKey = target.idField then assertSafeEntityId localValue
        let id := if relation.foreignKey = target.idField then some localValue else none
        match ← resolver ⟨data, id⟩ with
        | none => .error .noAncestor
        | some key => .ok (some key)

def relationAncestorForOwner (target : ModelMeta Key) (relation : Relation Key) (item : Item) :
    Except RelationError (Option Key) :=
  match relation.ancestor with
  | none => inferRelationDatastoreAncestor target relation item
  | some ancestor => do
    let key ← ancestor item
    if key.isNone && target.ancestor.isSome then .error .noAncestor else .ok key

def colon : Fin 65536 := 58

/-- The loop over the ancestor fields: the join key with their values, if all are there. -/
def scopedJoinKey (relation : Relation Key) (foreignValue data : Data) :
    List Units → Units → Except RelationError (Option Units)
  | [], key => .ok (some key)
  | field :: fields, key => do
    match ← ancestorFieldValue relation foreignValue data field with
    | .undefined => .ok none
    | value => do
      let valueKey ← portableScalarKey value
      scopedJoinKey relation foreignValue data fields
        (key ++ [colon] ++ decimal field.length ++ [colon] ++ field ++ [colon] ++
          decimal valueKey.length ++ [colon] ++ valueKey)

structure JoinKeys where
  joinKey : Units
  targetJoinKey : Units

def ModelMeta.fields (target : ModelMeta Key) : List Units := target.ancestorFields.getD []

def relationTargetJoinKeys (target : ModelMeta Key) (relation : Relation Key)
    (foreignValue data : Data) : Except RelationError JoinKeys := do
  let joinKey ← portableScalarKey foreignValue
  if target.fields.isEmpty then .ok ⟨joinKey, joinKey⟩
  else do
    match ← scopedJoinKey relation foreignValue data target.fields (joinKey ++ ofString ":datastore") with
    | none => .ok ⟨joinKey, joinKey⟩
    | some targetJoinKey => .ok ⟨joinKey, targetJoinKey⟩

/-- The owner knows the ancestor fields of the target. -/
def JoinKeys.canMatch (keys : JoinKeys) : Bool := keys.targetJoinKey ≠ keys.joinKey

/-- The keys of a row of the target, or `none` where it has no foreign key. -/
def rowJoinKeys (target : ModelMeta Key) (relation : Relation Key) (row : Item) :
    Except RelationError (Option JoinKeys) := do
  let foreignValue ← fieldValue row.data relation.foreignKey
  if foreignValue.missing then .ok none
  else (relationTargetJoinKeys target relation foreignValue row.data).map some

def assertUnambiguousDatastoreRelationFallback (target : ModelMeta Key) (relation : Relation Key)
    (canMatch : Bool) (matched : List Item) : Except RelationError Unit :=
  if relation.kind = .one && !canMatch && target.ancestor.isSome && 1 < matched.length then
    .error .ambiguous
  else .ok ()

/-! ## Queries -/

/-- A row, and the fields that it was selected with where not all were read. -/
structure Loaded where
  item : Item
  select : Option (List Units)

inductive Result
  | one (item : Option Loaded)
  | many (items : List Loaded)

def Result.empty : RelationKind → Result
  | .one => .one none
  | .many => .many []

def Result.items : Result → List Item
  | .one item => (item.map Loaded.item).toList
  | .many items => items.map Loaded.item

variable (content : Content Key)

/-- `relationPreloadSelectFields`, where only the preloaded fields are read. The keys of a row lie in
the selected fields. -/
def selectFields (relation : Relation Key) (full : Bool) : Option (List Units) :=
  if full || relation.preload.isEmpty then none
  else
    let target := content.model relation.target
    let select := ([target.idField, relation.foreignKey] ++ relation.preload ++ target.fields).eraseDups
    if content.selectable relation.target select then some select else none

def inScope (relation : Relation Key) (ancestor : Option Key) (row : Item) : Bool :=
  ancestor.all fun key => content.under relation.target key row

/-- The rows of `where(foreignKey, '=', value)`. -/
def whereEquals (relation : Relation Key) (ancestor : Option Key) (value : Data) :
    Except RelationError (List Item) := do
  let selected ← content.selects relation.target relation.foreignKey value
  .ok ((content.rows relation.target).filter fun row =>
    inScope content relation ancestor row && selected row)

/-- The rows of `where(foreignKey, 'in', values)`. -/
def whereIn (relation : Relation Key) (ancestor : Option Key) (values : List Data) :
    Except RelationError (List Item) := do
  let selected ← values.mapM (content.selects relation.target relation.foreignKey)
  .ok ((content.rows relation.target).filter fun row =>
    inScope content relation ancestor row && selected.any fun select => select row)

def assertRelationKey (relation : Relation Key) (value : Data) : Except RelationError Unit :=
  if relation.foreignKey = (content.model relation.target).idField then assertSafeEntityId value
  else (portableScalarKey value).map fun _ => ()

/-! ## The ref of one owner -/

def Result.of (relation : Relation Key) (select : Option (List Units)) (rows : List Item) : Result :=
  match relation.kind with
  | .one => .one (rows.head?.map fun row => ⟨row, select⟩)
  | .many => .many (rows.map fun row => ⟨row, select⟩)

/-- A relation to one that is resolved with the id of its target. -/
def byId (relation : Relation Key) (direct : Bool) : Bool :=
  relation.kind = .one && relation.foreignKey = (content.model relation.target).idField && direct &&
    (content.model relation.target).fields.isEmpty

/-- The rows that have the target key of the owner. -/
def matchingRows (relation : Relation Key) (targetJoinKey : Units) (rows : List Item) :
    Except RelationError (List Item) := do
  let keyed ← rows.mapM fun row =>
    (rowJoinKeys (content.model relation.target) relation row).map fun keys => (row, keys)
  .ok ((keyed.filter fun row => row.2.any fun keys => keys.targetJoinKey = targetJoinKey).map Prod.fst)

/-- An owner whose local key is there. -/
structure ActiveOwner (Key : Type) where
  item : Item
  localValue : Data
  keys : JoinKeys
  ancestor : Option Key

def activeOwner (relation : Relation Key) (item : Item) :
    Except RelationError (Option (ActiveOwner Key)) := do
  let localValue ← fieldValue item.data relation.localKey
  if localValue.missing then .ok none
  else do
    let ancestor ← relationAncestorForOwner (content.model relation.target) relation item
    let keys ← relationTargetJoinKeys (content.model relation.target) relation localValue item.data
    .ok (some ⟨item, localValue, keys, ancestor⟩)

/-- The rows that the query of an owner with its own local key comes to. -/
def ownRows (relation : Relation Key) (owner : ActiveOwner Key) : Except RelationError (List Item) := do
  let rows ← whereEquals content relation owner.ancestor owner.localValue
  if owner.keys.canMatch then matchingRows content relation owner.keys.targetJoinKey rows
  else
    match relation.kind with
    | .many => .ok rows
    | .one => do
      let list := rows.take (if (content.model relation.target).ancestor.isSome then 2 else 1)
      assertUnambiguousDatastoreRelationFallback (content.model relation.target) relation false list
      .ok list

/-- `resolveNow` of an owner whose local key is there. -/
def ActiveOwner.resolve (relation : Relation Key) (full : Bool) (owner : ActiveOwner Key) :
    Except RelationError Result := do
  assertRelationKey content relation owner.localValue
  if byId content relation (full || relation.preload.isEmpty) && !owner.keys.canMatch then do
    let row ← content.get relation.target owner.ancestor owner.localValue
    .ok (.one (row.map fun row => ⟨row, none⟩))
  else do
    let rows ← ownRows content relation owner
    .ok (.of relation (selectFields content relation full) rows)

def resolveNow (relation : Relation Key) (full : Bool) (item : Item) : Except RelationError Result := do
  match ← activeOwner content relation item with
  | none => .ok (.empty relation.kind)
  | some owner => owner.resolve content relation full

/-! ## The preload of many owners -/

def MAX_PORTABLE_IN_VALUES : Nat := 30

/-- `valuesByJoinKey`: the last local value of each key, in the order of the first. -/
def valuesByJoinKey (owners : List (ActiveOwner Key)) : List (Units × Data) :=
  owners.foldl (fun values owner => JsMap.insertEntry owner.keys.joinKey owner.localValue values) []

/-- The chunks of local values that are asked for together. -/
def valueChunks (owners : List (ActiveOwner Key)) : List (List Data) :=
  Buckets.chunks MAX_PORTABLE_IN_VALUES ((valuesByJoinKey owners).map Prod.snd)

/-- The buckets that a row of a query is pushed to. -/
def bucketKeys (relation : Relation Key) (usesAncestor : Bool) (row : Item) :
    Except RelationError (List Units) := do
  if usesAncestor then do
    match ← rowJoinKeys (content.model relation.target) relation row with
    | none => .ok []
    | some keys =>
      .ok (if keys.canMatch then [keys.joinKey, keys.targetJoinKey] else [keys.joinKey])
  else do
    let foreignValue ← fieldValue row.data relation.foreignKey
    if foreignValue.missing then .ok []
    else (portableScalarKey foreignValue).map fun key => [key]

/-- `byForeign` of the owners below one ancestor. -/
def byForeign (relation : Relation Key) (usesAncestor : Bool) (ancestor : Option Key)
    (owners : List (ActiveOwner Key)) : Except RelationError (List (Units × List Item)) := do
  let loaded ← (valueChunks owners).mapM (whereIn content relation ancestor)
  let keyed ← loaded.flatten.mapM fun row =>
    (bucketKeys content relation usesAncestor row).map fun keys => (row, keys)
  .ok (Buckets.ofRows keyed)

/-- The key of the bucket of an owner. -/
def ActiveOwner.bucketKey (usesAncestor : Bool) (owner : ActiveOwner Key) : Units :=
  if usesAncestor then owner.keys.targetJoinKey else owner.keys.joinKey

variable [DecidableEq Key]

/-- `groupActiveOwnersByAncestor`: the owners with the ancestor of one of them. -/
def groupOf (owners : List (ActiveOwner Key)) (owner : ActiveOwner Key) : List (ActiveOwner Key) :=
  owners.filter fun other => other.ancestor = owner.ancestor

/-- The result of an owner from the rows that were loaded for its group. -/
def groupResult (relation : Relation Key) (full usesAncestor : Bool)
    (owners : List (ActiveOwner Key)) (owner : ActiveOwner Key) : Except RelationError Result := do
  let buckets ← byForeign content relation usesAncestor owner.ancestor (groupOf owners owner)
  let rows := Buckets.bucket (owner.bucketKey usesAncestor) buckets
  assertUnambiguousDatastoreRelationFallback (content.model relation.target) relation
    (usesAncestor && owner.keys.canMatch) rows
  .ok (.of relation (selectFields content relation full) rows)

/-- The row of an owner that is read by its id. -/
def pointResult (relation : Relation Key) : Option (ActiveOwner Key) → Except RelationError Result
  | none => .ok (.empty relation.kind)
  | some owner => do
    let row ← content.get relation.target owner.ancestor owner.localValue
    .ok (.one (row.map fun row => ⟨row, none⟩))

def chunkResult (relation : Relation Key) (full usesAncestor : Bool)
    (owners : List (ActiveOwner Key)) : Option (ActiveOwner Key) → Except RelationError Result
  | none => .ok (.empty relation.kind)
  | some owner => groupResult content relation full usesAncestor owners owner

/-- The relation asks for rows below ancestors. -/
def relationUsesAncestor (relation : Relation Key) (owners : List (ActiveOwner Key)) : Bool :=
  relation.ancestor.isSome || owners.any fun owner => owner.ancestor.isSome

/-- The rows of all owners are read by their ids. -/
def allById (relation : Relation Key) (owners : List (ActiveOwner Key)) : Bool :=
  byId content relation relation.preload.isEmpty && !owners.any fun owner => owner.keys.canMatch

/-- One relation of `preloadIncludes`. The owners are different, so that each has the entry of
`resultByOwner` that its own key leads to. A row that several owners share is built anew for each. -/
def preloadRelation (relation : Relation Key) (full : Bool) (items : List Item) :
    Except RelationError (List Result) := do
  let active ← items.mapM (activeOwner content relation)
  let owners := active.filterMap id
  ((valuesByJoinKey owners).map Prod.snd).forM (assertRelationKey content relation)
  if allById content relation owners then active.mapM (pointResult content relation)
  else
    active.mapM (chunkResult content relation full (relationUsesAncestor relation owners) owners)

/-! ## Include paths -/

/-- The loads of a walk over include paths: the relations of the owners in their order, each with the
results of the owners and the loads of the paths below it. -/
inductive Loads
  | done
  | relation (name : Units) (results : List Result) (nested : Loads) (rest : Loads)

/-- The paths below each relation, in the order in which the relations come first. -/
def groupIncludes (includes : List (List Units)) : List (Units × List (List Units)) :=
  includes.foldl (fun grouped path =>
    match path with
    | [] => grouped
    | relation :: nested =>
      let paths := (JsMap.lookup relation grouped).getD []
      JsMap.insertEntry relation (if nested.isEmpty then paths else paths ++ [nested]) grouped) []

/-- The identities of a list of instances differ: an id, with its ancestor where the model has one,
is the id of one entity. -/
def modelResultSnapshots (items : List Item) : Except RelationError Unit :=
  if (items.map Item.entity).Nodup then .ok () else .error .duplicateId

/-- The paths below a relation, if there are any rows to walk on from. -/
def loadBelow (below : Units → List Item → List (List Units) → Except RelationError Loads)
    (target : Units) (related : List Item) (paths : List (List Units)) : Except RelationError Loads :=
  if paths.isEmpty || related.isEmpty then .ok .done else below target related paths

/-- The loop over the relations. `load` loads one relation for all owners, and `below` the paths below
it for all related rows. -/
def loadGroups (load : Relation Key → Bool → List Item → Except RelationError (List Result))
    (below : Units → List Item → List (List Units) → Except RelationError Loads)
    (owner : ModelMeta Key) (items : List Item) :
    List (Units × List (List Units)) → Except RelationError Loads
  | [] => .ok .done
  | (name, paths) :: groups =>
    match JsMap.lookup name owner.relations with
    | none => .error (.notRegistered name)
    | some relation => do
      let results ← load relation (!paths.isEmpty) items
      let nested ← loadBelow below relation.target (results.flatMap Result.items) paths
      let rest ← loadGroups load below owner items groups
      .ok (.relation name results nested rest)

/-- `preloadIncludes`. `depth` is a bound on the length of the paths. -/
def preloadIncludes : Nat → Units → List Item → List (List Units) → Except RelationError Loads
  | 0, _, _, _ => .ok .done
  | depth + 1, model, items, includes =>
    if items.isEmpty || includes.isEmpty then .ok .done
    else do
      modelResultSnapshots items
      loadGroups (preloadRelation content) (preloadIncludes depth) (content.model model) items
        (groupIncludes includes)

/-- The same walk with the ref of each owner on its own. -/
def resolveIncludes : Nat → Units → List Item → List (List Units) → Except RelationError Loads
  | 0, _, _, _ => .ok .done
  | depth + 1, model, items, includes =>
    if items.isEmpty || includes.isEmpty then .ok .done
    else
      loadGroups (fun relation full items => items.mapM (resolveNow content relation full))
        (resolveIncludes depth) (content.model model) items (groupIncludes includes)

/-- The length of the longest path. -/
def depthOf (includes : List (List Units)) : Nat := (includes.map List.length).foldr max 0

end

end ActiveTs.Query.Relations
