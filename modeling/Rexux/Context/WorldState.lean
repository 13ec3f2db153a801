import Rexux.Context.MergePatch
import Rexux.History.Reconstruct

/-!
# The persisted world state

What the model was last told of the world is kept as a snapshot.  A rollout records the
first snapshot of a history window whole and after it only patches; a compaction opens a new
window.  Numbers are told apart by the equality that snapshots are compared with.
-/

namespace Rexux.Context

open Foundation List Json Keyed

variable {Number : Type}

/-- A map with ordered keys, at all depths. -/
@[ext] structure JsonMap (Number : Type) where
  fields : Fields Number
  isOrdered : (object fields).IsOrdered

variable {value : Json Number}

namespace JsonMap

variable (map : JsonMap Number)

theorem sorted : Keyed.Sorted map.fields := by
  have h := map.isOrdered
  exact h.1

theorem isOrdered_of_mem : ∀ field ∈ map.fields, field.2.IsOrdered := by
  have h := map.isOrdered
  rw [Json.IsOrdered, fieldsOrdered_iff] at h
  exact h.2

def empty : JsonMap Number := ⟨[], List.Pairwise.nil, trivial⟩

theorem isOrdered_insert (key : Text)
    (hvalue : value.IsOrdered) : (object (insert map.fields key value)).IsOrdered := by
  rw [Json.IsOrdered, fieldsOrdered_iff]
  refine ⟨map.sorted.insert key value, ?_⟩
  intro field hfield
  rcases mem_insert hfield with rfl | hfield
  · exact hvalue
  · exact map.isOrdered_of_mem field hfield

def insert (key : Text) (value : {value : Json Number // value.IsOrdered}) : JsonMap Number :=
  ⟨Keyed.insert map.fields key value.1, map.isOrdered_insert key value.2⟩

end JsonMap

/-- The state of the world as the model was told it, by sections. -/
@[ext] structure WorldStateSnapshot (Number : Type) where
  sections : JsonMap Number

namespace WorldStateSnapshot

/-- As a section is written: no null outside of arrays. -/
def HasNoNull (snapshot : WorldStateSnapshot Number) : Prop :=
  (object snapshot.sections.fields).HasNoNullField

variable [DecidableEq Number]

theorem isOrdered_mergePatch (current previous : JsonMap Number) :
    (object (changedFields previous.fields current.fields
      (removedFields previous.fields current.fields))).IsOrdered := by
  apply isOrdered_patchFields previous.sorted current.isOrdered_of_mem
  intro field hfield found change hfound hchange
  exact isOrdered_createMergePatch (previous.isOrdered_of_mem _ (mem_of_get? hfound))
    (current.isOrdered_of_mem field hfield) hchange

theorem isOrdered_applyMergePatch (target patch : JsonMap Number) :
    (object (applyFields target.fields patch.fields)).IsOrdered :=
  isOrdered_applyMergePatchValue target.isOrdered patch.isOrdered

/-- The patch from an earlier snapshot, if something has changed. -/
def mergePatchFrom (current previous : WorldStateSnapshot Number) : Option (JsonMap Number) :=
  let patch : JsonMap Number := ⟨_, isOrdered_mergePatch current.sections previous.sections⟩
  if patch.fields.isEmpty then none else some patch

def applyMergePatch (snapshot : WorldStateSnapshot Number) (patch : JsonMap Number) :
    WorldStateSnapshot Number :=
  ⟨⟨_, isOrdered_applyMergePatch snapshot.sections patch⟩⟩

variable {current : WorldStateSnapshot Number}

theorem applyFields_mergePatch (hcurrent : current.HasNoNull)
    (previous : WorldStateSnapshot Number) :
    applyFields previous.sections.fields
        (changedFields previous.sections.fields current.sections.fields
          (removedFields previous.sections.fields current.sections.fields)) =
      current.sections.fields := by
  rw [HasNoNull, Json.HasNoNullField, fieldsNotNull_iff] at hcurrent
  have hordered := current.sections.isOrdered_of_mem
  apply applyFields_changedFields previous.sections.sorted current.sections.sorted
  · intro field hfield
    exact applyMergePatchValue_fresh rfl (hordered field hfield) (hcurrent field hfield).2
  · exact fun field hfield => (hcurrent field hfield).1
  · intro field hfield found change hfound hchange
    exact applyMergePatchValue_createMergePatch
      (previous.sections.isOrdered_of_mem _ (mem_of_get? hfound)) (hordered field hfield)
      (hcurrent field hfield).2 hchange

/-- The patch between two snapshots leads from one to the other. -/
theorem applyMergePatch_mergePatchFrom (hcurrent : current.HasNoNull)
    {previous : WorldStateSnapshot Number} {patch : JsonMap Number}
    (h : current.mergePatchFrom previous = some patch) :
    previous.applyMergePatch patch = current := by
  rw [mergePatchFrom] at h
  split_ifs at h
  cases h
  exact WorldStateSnapshot.ext (JsonMap.ext (applyFields_mergePatch hcurrent previous))

theorem changedFields_self {fields : Fields Number} (hsorted : Keyed.Sorted fields) :
    changedFields fields fields (removedFields fields fields) = [] := by
  apply Keyed.Sorted.ext
    (sorted_changedFields _ _ (sorted_removedFields hsorted fields)) List.Pairwise.nil
  intro key
  rw [get?_changedFields fields hsorted, get?_removedFields]
  cases hfound : get? fields key with
  | none => rfl
  | some value =>
    rw [Option.bind_some, changeOf, (createMergePatch_eq_none_iff value value).mpr rfl]
    rfl

/-- There is no patch only between equal snapshots. -/
theorem mergePatchFrom_eq_none_iff (hcurrent : current.HasNoNull)
    (previous : WorldStateSnapshot Number) :
    current.mergePatchFrom previous = none ↔ previous = current := by
  rw [mergePatchFrom, ite_eq_left_iff]
  simp only [reduceCtorEq, imp_false, Decidable.not_not, List.isEmpty_iff]
  constructor
  · intro hempty
    have happly := applyFields_mergePatch hcurrent previous
    rw [hempty] at happly
    exact WorldStateSnapshot.ext (JsonMap.ext happly)
  · rintro rfl
    exact changedFields_self previous.sections.sorted

end WorldStateSnapshot

section Sections

variable [DecidableEq Number]

mutual

/-- Arrays are replaced whole, so that their nulls stay. -/
def removeNullObjectFields : Json Number → Json Number
  | .object fields => .object (removeNullFields fields)
  | value => value

/-- Drop fields that are null, at all depths; a patch could not set them. -/
def removeNullFields : Fields Number → Fields Number
  | [] => []
  | (key, value) :: rest =>
    if value = .null then removeNullFields rest
    else (key, removeNullObjectFields value) :: removeNullFields rest

end

theorem removeNullObjectFields_of_not_object
    (h : ∀ fields, value ≠ .object fields) : removeNullObjectFields value = value := by
  cases value with
  | object fields => exact absurd rfl (h fields)
  | _ => rw [removeNullObjectFields]; exact h

theorem removeNullFields_eq (fields : Fields Number) :
    removeNullFields fields = (fields.filter (·.2 ≠ .null)).map
        fun field => (field.1, removeNullObjectFields field.2) := by
  induction fields with
  | nil => rfl
  | cons field rest ih =>
    obtain ⟨key, value⟩ := field
    rw [removeNullFields, ih]
    by_cases hnull : value = .null
    · simp [hnull]
    · simp [hnull]

theorem removeNullObjectFields_ne_null (h : value ≠ .null) :
    removeNullObjectFields value ≠ .null := by
  induction value using objectInduction with
  | hvalue value hvalue => rwa [removeNullObjectFields_of_not_object hvalue]
  | hobject fields => exact fun hnull => nomatch hnull

theorem isOrdered_removeNullObjectFields (h : value.IsOrdered) :
    (removeNullObjectFields value).IsOrdered := by
  induction value using objectInduction with
  | hvalue value hvalue => rwa [removeNullObjectFields_of_not_object hvalue]
  | hobject fields ih =>
    rw [Json.IsOrdered, fieldsOrdered_iff] at h
    rw [removeNullObjectFields, Json.IsOrdered, fieldsOrdered_iff, removeNullFields_eq]
    refine ⟨Keyed.Sorted.map (h.1.filter _) _, ?_⟩
    intro field hfield
    obtain ⟨original, hmem, rfl⟩ := mem_map.mp hfield
    have horiginal := (mem_filter.mp hmem).1
    exact ih original horiginal (h.2 original horiginal)

theorem hasNoNullField_removeNullObjectFields (value : Json Number) :
    (removeNullObjectFields value).HasNoNullField := by
  induction value using objectInduction with
  | hvalue value hvalue =>
    cases value with
    | object fields => exact absurd rfl (hvalue fields)
    | _ => trivial
  | hobject fields ih =>
    rw [removeNullObjectFields, Json.HasNoNullField, fieldsNotNull_iff, removeNullFields_eq]
    intro field hfield
    obtain ⟨original, hmem, rfl⟩ := mem_map.mp hfield
    obtain ⟨horiginal, hnull⟩ := mem_filter.mp hmem
    exact ⟨removeNullObjectFields_ne_null (of_decide_eq_true hnull), ih original horiginal⟩

end Sections

/-- What a section tells of itself; `value` is none where it cannot be serialized.  A section
of an extension is always persisted. -/
structure WorldStateSection (Number : Type) where
  id : Text
  shouldPersist : Bool
  value : Option {value : Json Number // value.IsOrdered}

/-- The sections of the world, each under its own id. -/
structure WorldState (Number : Type) where
  sections : List (WorldStateSection Number)
  nodup : (sections.map (·.id)).Nodup

variable [DecidableEq Number]

/-- What the section adds to a snapshot, if it is to be persisted. -/
def WorldStateSection.snapshot (part : WorldStateSection Number) :
    Option {value : Json Number // value.IsOrdered} :=
  if part.shouldPersist then
    (part.value.map fun value =>
      ⟨removeNullObjectFields value.1, isOrdered_removeNullObjectFields value.2⟩).filter
        (·.1 ≠ .null)
  else none

def collectSections (map : JsonMap Number) (part : WorldStateSection Number) : JsonMap Number :=
  match part.snapshot with
  | none => map
  | some value => map.insert part.id value

def WorldState.snapshot (state : WorldState Number) : WorldStateSnapshot Number :=
  ⟨state.sections.foldl collectSections JsonMap.empty⟩

theorem WorldStateSection.of_snapshot {part : WorldStateSection Number}
    {value : {value : Json Number // value.IsOrdered}} (h : part.snapshot = some value) :
    value.1 ≠ .null ∧ value.1.HasNoNullField := by
  rw [snapshot] at h
  split_ifs at h
  obtain ⟨hvalue, hnull⟩ := Option.filter_eq_some_iff.mp h
  obtain ⟨original, -, rfl⟩ := Option.map_eq_some_iff.mp hvalue
  exact ⟨of_decide_eq_true hnull, hasNoNullField_removeNullObjectFields original.1⟩

theorem fieldsNotNull_collectSections {map : JsonMap Number}
    (hmap : Json.FieldsNotNull map.fields) (part : WorldStateSection Number) :
    Json.FieldsNotNull (collectSections map part).fields := by
  rw [collectSections]
  split
  · exact hmap
  next value hvalue =>
    rw [fieldsNotNull_iff] at hmap ⊢
    intro field hfield
    rcases mem_insert hfield with rfl | hfield
    · exact WorldStateSection.of_snapshot hvalue
    · exact hmap field hfield

theorem WorldState.hasNoNull_snapshot (state : WorldState Number) : state.snapshot.HasNoNull := by
  refine foldlRecOn (motive := fun map : JsonMap Number => Json.FieldsNotNull map.fields)
    state.sections collectSections trivial ?_
  exact fun map h part _ => fieldsNotNull_collectSections h part

/-! ## What is recorded of a run -/

/-- A record of the rollout: a whole state or a patch. -/
structure WorldStateItem (Number : Type) where
  full : Bool
  state : JsonMap Number

namespace WorldStateItem

def ofFull (state : JsonMap Number) : WorldStateItem Number := ⟨true, state⟩

def patch (state : JsonMap Number) : WorldStateItem Number := ⟨false, state⟩

end WorldStateItem

/-- The records of a rollout that its world state is read from. -/
inductive ReplayItem (Number : Type)
  | compacted
  | worldState (item : WorldStateItem Number)

/-- A compaction clears the baseline, or sets the one the new history was built with. -/
inductive WorldStateEvent (Number : Type)
  | updateWorldState (state : WorldState Number)
  | replaceCompactedHistory (baseline : Option (WorldState Number))

/-- The baseline that the model was told, and what was recorded. -/
structure ContextManager (Number : Type) where
  worldStateBaseline : Option (WorldStateSnapshot Number)
  rollout : List (ReplayItem Number)

open ContextManager

namespace ContextManager

def new : ContextManager Number := ⟨none, []⟩

/-- The record for a new snapshot; none if nothing has changed. -/
def rolloutItem (baseline : Option (WorldStateSnapshot Number))
    (snapshot : WorldStateSnapshot Number) : Option (WorldStateItem Number) :=
  match baseline with
  | none => some (.ofFull snapshot.sections)
  | some previous => (snapshot.mergePatchFrom previous).map .patch

/-- An update is recorded against the baseline, and a compaction sets a new one. -/
def step (manager : ContextManager Number) : WorldStateEvent Number → ContextManager Number
  | .updateWorldState state =>
    ⟨some state.snapshot, manager.rollout ++
      ((rolloutItem manager.worldStateBaseline state.snapshot).map .worldState).toList⟩
  | .replaceCompactedHistory none => ⟨none, manager.rollout ++ [.compacted]⟩
  | .replaceCompactedHistory (some state) =>
    ⟨some state.snapshot,
      manager.rollout ++ [.compacted, .worldState (.ofFull state.snapshot.sections)]⟩

def run (events : List (WorldStateEvent Number)) : ContextManager Number := events.foldl step new

end ContextManager

/-! ## Reading it back -/

/-- What a record does to the baseline when the rollout is read back. -/
def replayStep (baseline : Option (WorldStateSnapshot Number)) :
    ReplayItem Number → Option (WorldStateSnapshot Number)
  | .compacted => none
  | .worldState item =>
    if item.full then some ⟨item.state⟩
    else baseline.map (·.applyMergePatch item.state)

/-- The baseline of a resumed session. -/
def replayWorldState (items : List (ReplayItem Number)) : Option (WorldStateSnapshot Number) :=
  items.foldl replayStep none

/-- What is recorded for a snapshot is replayed to that snapshot. -/
theorem replayStep_rolloutItem (baseline : Option (WorldStateSnapshot Number))
    {snapshot : WorldStateSnapshot Number} (hsnapshot : snapshot.HasNoNull) :
    ((rolloutItem baseline snapshot).map ReplayItem.worldState).toList.foldl replayStep baseline =
      some snapshot := by
  cases baseline with
  | none => rfl
  | some previous =>
    rw [rolloutItem]
    cases hpatch : snapshot.mergePatchFrom previous with
    | none => exact congrArg some ((snapshot.mergePatchFrom_eq_none_iff hsnapshot _).mp hpatch)
    | some patch =>
      exact congrArg some (WorldStateSnapshot.applyMergePatch_mergePatchFrom hsnapshot hpatch)

/-- Each event keeps the replay of the rollout at the baseline. -/
theorem replayWorldState_step {manager : ContextManager Number}
    (h : replayWorldState manager.rollout = manager.worldStateBaseline)
    (event : WorldStateEvent Number) :
    replayWorldState (manager.step event).rollout = (manager.step event).worldStateBaseline := by
  rw [replayWorldState] at h
  cases event with
  | updateWorldState state =>
    rw [replayWorldState, step, foldl_append, h]
    exact replayStep_rolloutItem _ state.hasNoNull_snapshot
  | replaceCompactedHistory baseline =>
    cases baseline with
    | none | some state =>
      rw [replayWorldState, step, foldl_append]
      rfl

theorem replayWorldState_run (events : List (WorldStateEvent Number)) :
    replayWorldState (run events).rollout = (run events).worldStateBaseline := by
  refine foldlRecOn (motive := fun manager : ContextManager Number =>
    replayWorldState manager.rollout = manager.worldStateBaseline) events step rfl ?_
  exact fun manager h event _ => replayWorldState_step h event

section Encoding

variable {rules : History.HistoryRules} {encode : JsonMap Number → Text}

variable (rules encode) in
/-- Rules that read texts as `encode` writes maps. -/
structure ReadsMaps : Prop where
  snapshotFrom : ∀ state, rules.snapshotFrom (encode state) = encode state
  applyMergePatch : ∀ target patch : JsonMap Number,
    rules.applyMergePatch (encode target) (encode patch) =
      encode (WorldStateSnapshot.applyMergePatch ⟨target⟩ patch).sections

/-- The record as it is in the rollout, with its map as text. -/
def ReplayItem.record (encode : JsonMap Number → Text) :
    ReplayItem Number → History.WorldStateRecord
  | .compacted => .compacted
  | .worldState item => .worldState ⟨item.full, encode item.state⟩

/-- A baseline as text. -/
def encoded (encode : JsonMap Number → Text) (baseline : Option (WorldStateSnapshot Number)) :
    Option Text :=
  baseline.map fun snapshot => encode snapshot.sections

variable (hreads : ReadsMaps rules encode)
include hreads

/-- The replay of encoded records is the encoded replay. -/
theorem worldStateStep_record
    (baseline : Option (WorldStateSnapshot Number)) (item : ReplayItem Number) :
    History.worldStateStep rules (encoded encode baseline) (item.record encode) =
      encoded encode (replayStep baseline item) := by
  cases item with
  | compacted => rfl
  | worldState item =>
    change (if item.full then some (rules.snapshotFrom (encode item.state))
      else (encoded encode baseline).map (rules.applyMergePatch · (encode item.state))) =
        encoded encode (if item.full then some ⟨item.state⟩
          else baseline.map (·.applyMergePatch item.state))
    cases item.full with
    | true => exact congrArg some (hreads.snapshotFrom item.state)
    | false =>
      cases baseline with
      | none => rfl
      | some snapshot => exact congrArg some (hreads.applyMergePatch snapshot.sections _)

theorem foldl_worldStateStep_record
    (items : List (ReplayItem Number)) (baseline : Option (WorldStateSnapshot Number)) :
    (items.map (ReplayItem.record encode)).foldl (History.worldStateStep rules)
        (encoded encode baseline) =
      encoded encode (items.foldl replayStep baseline) := by
  rw [foldl_map]
  exact foldl_hom _ (worldStateStep_record hreads)

theorem foldl_worldStateStep_run (events : List (WorldStateEvent Number)) :
    ((run events).rollout.map (ReplayItem.record encode)).foldl
        (History.worldStateStep rules) none =
      encoded encode (run events).worldStateBaseline := by
  rw [← replayWorldState_run]
  exact foldl_worldStateStep_record hreads _ none

end Encoding

/-- A patch leads from any snapshot to the one it was made for, and the records of a run to
its baseline, also when they are read back from the texts of the rollout. -/
theorem world_state_replays_exactly (previous : WorldStateSnapshot Number)
    {current : WorldStateSnapshot Number} (hcurrent : current.HasNoNull)
    (events : List (WorldStateEvent Number)) :
    (current.mergePatchFrom previous).elim previous previous.applyMergePatch = current ∧
      (current.mergePatchFrom previous = none ↔ previous = current) ∧
      replayWorldState (run events).rollout = (run events).worldStateBaseline ∧
      ∀ rules (encode : JsonMap Number → Text), ReadsMaps rules encode →
        ((run events).rollout.map (ReplayItem.record encode)).foldl
            (History.worldStateStep rules) none =
          encoded encode (run events).worldStateBaseline := by
  refine ⟨?_, current.mergePatchFrom_eq_none_iff hcurrent previous, replayWorldState_run events,
    fun _ _ hreads => foldl_worldStateStep_run hreads events⟩
  cases hpatch : current.mergePatchFrom previous with
  | none => exact (current.mergePatchFrom_eq_none_iff hcurrent previous).mp hpatch
  | some patch => exact WorldStateSnapshot.applyMergePatch_mergePatchFrom hcurrent hpatch

def shellWorld : WorldState ℕ where
  sections :=
    [⟨"shell".toList, true,
      some ⟨.object [("args".toList, .array [.null]), ("cwd".toList, .null)],
        pairwise_pair.mpr (by decide), ⟨trivial, trivial⟩, trivial, trivial⟩⟩]
  nodup := pairwise_singleton _ _

theorem shellWorld_replays :
    (shellWorld.snapshot.mergePatchFrom ⟨JsonMap.empty⟩).elim ⟨JsonMap.empty⟩
        (WorldStateSnapshot.applyMergePatch ⟨JsonMap.empty⟩) = shellWorld.snapshot ∧
      (shellWorld.snapshot.mergePatchFrom ⟨JsonMap.empty⟩ = none ↔
        ⟨JsonMap.empty⟩ = shellWorld.snapshot) ∧
      replayWorldState (run [.updateWorldState shellWorld,
          .replaceCompactedHistory none, .updateWorldState shellWorld]).rollout =
        (run [.updateWorldState shellWorld, .replaceCompactedHistory none,
          .updateWorldState shellWorld]).worldStateBaseline :=
  have hreplays := world_state_replays_exactly _ shellWorld.hasNoNull_snapshot _
  ⟨hreplays.1, hreplays.2.1, hreplays.2.2.1⟩

end Rexux.Context
