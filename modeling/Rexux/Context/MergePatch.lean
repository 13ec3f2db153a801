import Rexux.Foundation.Json

/-!
# Merge patches

The patch that leads from one value to another, and its application: a field that is null
in a patch is removed, objects are patched field by field, everything else is replaced.
-/

namespace Rexux.Context

open Foundation List Keyed Json Option

variable {Number : Type} [DecidableEq Number]

/-- The fields of an object, ordered by their keys. -/
abbrev Fields (Number : Type) := List (Text × Json Number)

/-- The fields of a value; a value that is no object has none. -/
def asObject : Json Number → Fields Number
  | .object fields => fields
  | _ => []

/-- The removals of a patch come first. -/
def removedFields (previous current : Fields Number) : Fields Number :=
  (previous.filter fun field => (get? current field.1).isNone).map fun field => (field.1, .null)

mutual

/-- The patch that leads to a value, if one is needed. -/
def createMergePatch (previous : Json Number) : Json Number → Option (Json Number)
  | .object current =>
    if previous = .object current then none
    else
      some (.object (changedFields (asObject previous) current
        (removedFields (asObject previous) current)))
  | current => if previous = current then none else some current

/-- The fields that are new or changed. -/
def changedFields (previous : Fields Number) : Fields Number → Fields Number → Fields Number
  | [], patch => patch
  | (key, current) :: rest, patch =>
    match get? previous key with
    | none => changedFields previous rest (insert patch key current)
    | some found =>
      match createMergePatch found current with
      | none => changedFields previous rest patch
      | some change => changedFields previous rest (insert patch key change)

end

mutual

/-- Apply a patch: objects are merged, everything else is replaced. -/
def applyMergePatchValue (target : Json Number) : Json Number → Json Number
  | .object patch => .object (applyFields (asObject target) patch)
  | patch => patch

/-- A null takes a field away, another value is merged into it. -/
def applyFields (target : Fields Number) : Fields Number → Fields Number
  | [] => target
  | (key, value) :: rest =>
    if value = .null then applyFields (erase target key) rest
    else
      applyFields (insert target key
        (applyMergePatchValue ((get? target key).getD .null) value)) rest

end

variable {current : Json Number}

theorem createMergePatch_of_not_object
    (h : ∀ fields, current ≠ .object fields) (previous : Json Number) :
    createMergePatch previous current = if previous = current then none else some current := by
  cases current with
  | object fields => exact absurd rfl (h fields)
  | _ => rw [createMergePatch]; exact h

theorem applyMergePatchValue_of_not_object {patch : Json Number}
    (h : ∀ fields, patch ≠ .object fields) (target : Json Number) :
    applyMergePatchValue target patch = patch := by
  cases patch with
  | object fields => exact absurd rfl (h fields)
  | _ => rw [applyMergePatchValue]; exact h

/-! ## What a patch says of a key -/

def changeOf (previous : Option (Json Number)) (current : Json Number) : Option (Json Number) :=
  match previous with
  | none => some current
  | some found => createMergePatch found current

def patched (target : Option (Json Number)) (value : Json Number) : Option (Json Number) :=
  if value = .null then none else some (applyMergePatchValue (target.getD .null) value)

omit [DecidableEq Number] in
theorem get?_removedFields (previous current : Fields Number) (key : Text) :
    get? (removedFields previous current) key =
      if (get? current key).isNone then (get? previous key).map fun _ => .null
      else none := by
  unfold removedFields
  rw [get?_map (fun _ : Json Number => null), get?_filter (fun key => (get? current key).isNone)]
  split
  · rfl
  · rfl

theorem changedFields_cons (previous : Fields Number) (key : Text) (current : Json Number)
    (rest patch : Fields Number) :
    changedFields previous ((key, current) :: rest) patch = changedFields previous rest
        (((changeOf (get? previous key) current).map (insert patch key)).getD patch) := by
  rw [changedFields]
  unfold changeOf
  split
  · rfl
  next found =>
    split
    next hchange =>
      rw [hchange]
      rfl
    next change hchange =>
      rw [hchange]
      rfl

/-- A field of the patch is the change of that field. -/
theorem get?_changedFields (previous : Fields Number) {current : Fields Number}
    (hsorted : Keyed.Sorted current) (patch : Fields Number) (key : Text) :
    get? (changedFields previous current patch) key =
      ((get? current key).bind (changeOf (get? previous key))).or (get? patch key) := by
  induction current generalizing patch with
  | nil => rfl
  | cons field rest ih =>
    obtain ⟨name, value⟩ := field
    rw [changedFields_cons, ih (pairwise_cons.mp hsorted).2]
    by_cases hkey : key = name
    · subst hkey
      rw [hsorted.get?_tail, get?_cons_self, bind_none, none_or, bind_some]
      cases changeOf (get? previous key) value with
      | none => rfl
      | some change => rw [map_some, getD_some, get?_insert_self, some_or]
    · rw [get?_cons_of_ne value rest hkey]
      cases changeOf (get? previous name) value with
      | none => rfl
      | some change => rw [map_some, getD_some, get?_insert_of_ne hkey]

variable {patch : Fields Number}

/-- A field after the patch depends only on that field before. -/
theorem get?_applyFields (target : Fields Number) (hsorted : Keyed.Sorted patch) (key : Text) :
    get? (applyFields target patch) key = (get? patch key).elim (get? target key)
        (patched (get? target key)) := by
  induction patch generalizing target with
  | nil => rfl
  | cons field rest ih =>
    obtain ⟨name, value⟩ := field
    have hrest := (pairwise_cons.mp hsorted).2
    rw [applyFields]
    by_cases hkey : key = name
    · subst hkey
      rw [get?_cons_self, elim_some, patched]
      split
      · rw [ih _ hrest, hsorted.get?_tail, elim_none, get?_erase, if_pos rfl]
      · rw [ih _ hrest, hsorted.get?_tail, elim_none, get?_insert_self]
    · rw [get?_cons_of_ne value rest hkey]
      split
      · rw [ih _ hrest, get?_erase, if_neg hkey]
      · rw [ih _ hrest, get?_insert_of_ne hkey]

theorem sorted_changedFields (previous current : Fields Number)
    (hsorted : Keyed.Sorted patch) : Keyed.Sorted (changedFields previous current patch) := by
  induction current generalizing patch with
  | nil => exact hsorted
  | cons field rest ih =>
    obtain ⟨name, value⟩ := field
    rw [changedFields_cons]
    apply ih
    cases changeOf (get? previous name) value with
    | none => exact hsorted
    | some change => exact hsorted.insert name change

theorem sorted_applyFields {target : Fields Number} (hsorted : Keyed.Sorted target)
    (patch : Fields Number) : Keyed.Sorted (applyFields target patch) := by
  induction patch generalizing target with
  | nil => exact hsorted
  | cons field rest ih =>
    obtain ⟨name, value⟩ := field
    rw [applyFields]
    split
    · exact ih (hsorted.erase name)
    · exact ih (hsorted.insert name _)

variable {previous : Fields Number}

omit [DecidableEq Number] in
theorem sorted_removedFields (hsorted : Keyed.Sorted previous)
    (current : Fields Number) : Keyed.Sorted (removedFields previous current) :=
  Keyed.Sorted.map (hsorted.filter _) _

variable {value : Json Number}

omit [DecidableEq Number] in
theorem sorted_asObject (h : value.IsOrdered) : Keyed.Sorted (asObject value) := by
  cases value with
  | object fields => exact h.1
  | _ => exact List.Pairwise.nil

omit [DecidableEq Number] in
theorem isOrdered_of_get? (h : value.IsOrdered) {key : Text}
    {found : Json Number} (hfound : get? (asObject value) key = some found) : found.IsOrdered := by
  cases value with
  | object fields => exact fieldsOrdered_iff.mp h.2 _ (mem_of_get? hfound)
  | _ => cases hfound

/-! ## The round trip -/

variable {target : Json Number}

/-- Over a value without fields, a patch without nulls is taken as it is. -/
theorem applyMergePatchValue_fresh (htarget : asObject target = [])
    (hordered : value.IsOrdered) (hvalue : value.HasNoNullField) :
    applyMergePatchValue target value = value := by
  induction value using objectInduction generalizing target with
  | hvalue value hscalar => exact applyMergePatchValue_of_not_object hscalar target
  | hobject fields ih =>
    rw [Json.HasNoNullField, fieldsNotNull_iff] at hvalue
    rw [applyMergePatchValue, htarget]
    congr 1
    apply Keyed.Sorted.ext (sorted_applyFields List.Pairwise.nil fields) hordered.1
    intro key
    rw [get?_applyFields [] hordered.1]
    cases hfield : get? fields key with
    | none => rfl
    | some value =>
      have hmem := mem_of_get? hfield
      obtain ⟨hnull, hclean⟩ := hvalue _ hmem
      rw [elim_some, patched, if_neg hnull]
      exact congrArg some (ih _ hmem rfl (fieldsOrdered_iff.mp hordered.2 _ hmem) hclean)

theorem createMergePatch_eq_none_iff (previous current : Json Number) :
    createMergePatch previous current = none ↔ previous = current := by
  induction current using objectInduction with
  | hvalue value hvalue => simp [createMergePatch_of_not_object hvalue]
  | hobject fields => simp [createMergePatch]

variable {change : Json Number}

theorem ne_null_of_createMergePatch {previous : Json Number}
    (hcurrent : current ≠ .null) (h : createMergePatch previous current = some change) :
    change ≠ .null := by
  induction current using objectInduction with
  | hvalue value hvalue =>
    rw [createMergePatch_of_not_object hvalue] at h
    split_ifs at h
    cases h
    exact hcurrent
  | hobject fields =>
    rw [createMergePatch] at h
    split_ifs at h
    cases h
    exact fun hnull => nomatch hnull

theorem applyFields_changedFields {current : Fields Number}
    (hprevious : Keyed.Sorted previous) (hcurrent : Keyed.Sorted current)
    (hfresh : ∀ field ∈ current, applyMergePatchValue .null field.2 = field.2)
    (hnull : ∀ field ∈ current, field.2 ≠ .null)
    (hfields : ∀ field ∈ current, ∀ found change, get? previous field.1 = some found →
      createMergePatch found field.2 = some change → applyMergePatchValue found change = field.2) :
    applyFields previous (changedFields previous current (removedFields previous current)) =
      current := by
  have hpatch := sorted_changedFields previous current (sorted_removedFields hprevious current)
  apply Keyed.Sorted.ext (sorted_applyFields hprevious _) hcurrent
  intro key
  rw [get?_applyFields previous hpatch, get?_changedFields previous hcurrent, get?_removedFields]
  cases hold : get? previous key with
  | none =>
    cases hnew : get? current key with
    | none => rfl
    | some value =>
      have hmem := mem_of_get? hnew
      rw [bind_some, changeOf, some_or, elim_some, patched,
        if_neg (hnull _ hmem), getD_none, hfresh _ hmem]
  | some found =>
    cases hnew : get? current key with
    | none => rfl
    | some value =>
      have hmem := mem_of_get? hnew
      rw [bind_some, changeOf]
      cases hchange : createMergePatch found value with
      | none =>
        rw [(createMergePatch_eq_none_iff found value).mp hchange]
        rfl
      | some change =>
        rw [some_or, elim_some, patched,
          if_neg (ne_null_of_createMergePatch (hnull _ hmem) hchange), getD_some,
          hfields _ hmem found change hold hchange]

/-- The patch leads from the previous value to the current one. -/
theorem applyMergePatchValue_createMergePatch {previous : Json Number}
    (hprevious : previous.IsOrdered) (hcurrent : current.IsOrdered)
    (hclean : current.HasNoNullField) (h : createMergePatch previous current = some change) :
    applyMergePatchValue previous change = current := by
  induction current using objectInduction generalizing previous change with
  | hvalue value hvalue =>
    rw [createMergePatch_of_not_object hvalue] at h
    split_ifs at h
    cases h
    exact applyMergePatchValue_of_not_object hvalue previous
  | hobject fields ih =>
    rw [Json.IsOrdered, fieldsOrdered_iff] at hcurrent
    rw [Json.HasNoNullField, fieldsNotNull_iff] at hclean
    rw [createMergePatch] at h
    split_ifs at h
    cases h
    rw [applyMergePatchValue]
    congr 1
    apply applyFields_changedFields (sorted_asObject hprevious) hcurrent.1
    · intro field hfield
      exact applyMergePatchValue_fresh rfl (hcurrent.2 field hfield) (hclean field hfield).2
    · exact fun field hfield => (hclean field hfield).1
    · intro field hfield found change hfound hchange
      exact ih field hfield (isOrdered_of_get? hprevious hfound) (hcurrent.2 field hfield)
        (hclean field hfield).2 hchange

/-! ## Patches are values -/

theorem isOrdered_changedFields {current : Fields Number}
    (hpatch : ∀ field ∈ patch, field.2.IsOrdered)
    (hchange : ∀ field ∈ current, ∀ change,
      changeOf (get? previous field.1) field.2 = some change → change.IsOrdered) :
    ∀ field ∈ changedFields previous current patch, field.2.IsOrdered := by
  induction current generalizing patch with
  | nil => exact hpatch
  | cons field rest ih =>
    obtain ⟨name, value⟩ := field
    rw [changedFields_cons]
    apply ih
    · cases hfirst : changeOf (get? previous name) value with
      | none => exact hpatch
      | some change =>
        intro field hfield
        rcases mem_insert hfield with rfl | hfield
        · exact hchange (name, value) mem_cons_self change hfirst
        · exact hpatch field hfield
    · exact fun field hfield => hchange field (mem_cons_of_mem _ hfield)

omit [DecidableEq Number] in
theorem isOrdered_removedFields (previous current : Fields Number) :
    ∀ field ∈ removedFields previous current, field.2.IsOrdered :=
  forall_mem_map.mpr fun _ _ => trivial

theorem isOrdered_patchFields {current : Fields Number}
    (hprevious : Keyed.Sorted previous) (hcurrent : ∀ field ∈ current, field.2.IsOrdered)
    (hfields : ∀ field ∈ current, ∀ found change, get? previous field.1 = some found →
      createMergePatch found field.2 = some change → change.IsOrdered) :
    (object (changedFields previous current (removedFields previous current))).IsOrdered := by
  rw [Json.IsOrdered, fieldsOrdered_iff]
  refine ⟨sorted_changedFields _ _ (sorted_removedFields hprevious _), ?_⟩
  apply isOrdered_changedFields (isOrdered_removedFields _ _)
  intro field hfield change hchange
  cases hfound : get? previous field.1 with
  | none =>
    rw [hfound] at hchange
    cases hchange
    exact hcurrent field hfield
  | some found =>
    rw [hfound] at hchange
    exact hfields field hfield found change hfound hchange

/-- Patches of ordered values are ordered. -/
theorem isOrdered_createMergePatch {previous : Json Number}
    (hprevious : previous.IsOrdered) (hcurrent : current.IsOrdered)
    (h : createMergePatch previous current = some change) : change.IsOrdered := by
  induction current using objectInduction generalizing previous change with
  | hvalue value hvalue =>
    rw [createMergePatch_of_not_object hvalue] at h
    split_ifs at h
    cases h
    exact hcurrent
  | hobject fields ih =>
    rw [Json.IsOrdered, fieldsOrdered_iff] at hcurrent
    rw [createMergePatch] at h
    split_ifs at h
    cases h
    apply isOrdered_patchFields (sorted_asObject hprevious) hcurrent.2
    intro field hfield found change hfound hchange
    exact ih field hfield (isOrdered_of_get? hprevious hfound) (hcurrent.2 field hfield) hchange

theorem isOrdered_applyFields {target : Fields Number}
    (htarget : ∀ field ∈ target, field.2.IsOrdered)
    (hpatch : ∀ field ∈ patch, ∀ value : Json Number, value.IsOrdered →
      (applyMergePatchValue value field.2).IsOrdered) :
    ∀ field ∈ applyFields target patch, field.2.IsOrdered := by
  induction patch generalizing target with
  | nil => exact htarget
  | cons field rest ih =>
    obtain ⟨name, value⟩ := field
    have hrest : ∀ field ∈ rest, ∀ value : Json Number, value.IsOrdered →
        (applyMergePatchValue value field.2).IsOrdered :=
      fun field hfield => hpatch field (mem_cons_of_mem _ hfield)
    rw [applyFields]
    split
    · exact ih (fun field hfield => htarget field (mem_filter.mp hfield).1) hrest
    · refine ih ?_ hrest
      intro field hfield
      rcases mem_insert hfield with rfl | hfield
      · apply hpatch (name, value) mem_cons_self
        cases hfound : get? target name with
        | none => trivial
        | some found => exact htarget _ (mem_of_get? hfound)
      · exact htarget field hfield

theorem isOrdered_applyMergePatchValue {patch : Json Number} (htarget : target.IsOrdered)
    (hpatch : patch.IsOrdered) : (applyMergePatchValue target patch).IsOrdered := by
  induction patch using objectInduction generalizing target with
  | hvalue value hvalue =>
    rw [applyMergePatchValue_of_not_object hvalue]
    exact hpatch
  | hobject fields ih =>
    rw [Json.IsOrdered, fieldsOrdered_iff] at hpatch
    rw [applyMergePatchValue, Json.IsOrdered, fieldsOrdered_iff]
    refine ⟨sorted_applyFields (sorted_asObject htarget) fields, ?_⟩
    apply isOrdered_applyFields
    · cases target with
      | object fields =>
        rw [Json.IsOrdered, fieldsOrdered_iff] at htarget
        exact htarget.2
      | _ => exact fun _ h => nomatch h
    · exact fun field hfield value hvalue => ih field hfield hvalue (hpatch.2 field hfield)

end Rexux.Context
