import Rexux.History.Normalize

/-!
# Removing the oldest item of a history

The counterpart of a removed call or output goes with it, so a history in which every
call has its output needs no other normalization afterwards.
-/

namespace Rexux.History

open Foundation List

def isFunctionCall (callId : Text) : ResponseItem → Bool
  | .functionCall _ existing _ _ => existing = callId
  | _ => false

def isLocalShellCall (callId : Text) : ResponseItem → Bool
  | .localShellCall _ (some existing) _ _ => existing = callId
  | _ => false

/-- The items of which the first goes with `removed`. A local shell call goes with an output
only if no function call does. -/
def isCounterpart (items : List ResponseItemEnvelope) (removed item : ResponseItem) : Bool :=
  match callKey removed, outputKey removed with
  | some key, _ => outputKey item = some key
  | none, some (.function, callId) =>
    if items.any (isFunctionCall callId ·.item) then isFunctionCall callId item
    else isLocalShellCall callId item
  | none, some key => callKey item = some key
  | none, none => false

def removeCorrespondingFor (items : List ResponseItemEnvelope) (removed : ResponseItem) :
    List ResponseItemEnvelope :=
  items.eraseP (isCounterpart items removed ·.item)

def removeFirstItem : List ResponseItemEnvelope → List ResponseItemEnvelope
  | [] => []
  | removed :: items => removeCorrespondingFor items removed.item

/-- For every kind and call id there are as many calls as outputs. -/
def Balanced (items : List ResponseItemEnvelope) : Prop :=
  ∀ key, (callKeys items).count key = (outputKeys items).count key

variable {items : List ResponseItemEnvelope} {removed item : ResponseItem} {key : CallKey}

theorem callKey_eq_function_iff {callId : Text} :
    callKey item = some (.function, callId) ↔
      isFunctionCall callId item ∨ isLocalShellCall callId item := by
  cases item with
  | localShellCall _ callId | toolSearchCall _ callId =>
    cases callId <;> simp [callKey, isFunctionCall, isLocalShellCall]
  | _ => simp [callKey, isFunctionCall, isLocalShellCall]

theorem outputKey_eq_none_of_callKey (h : callKey item = some key) : outputKey item = none := by
  cases houtput : outputKey item with
  | none => rfl
  | some key =>
    rw [callKey_eq_none_of_outputKey houtput] at h
    cases h

theorem keys_of_isCounterpart (h : isCounterpart items removed item) :
    callKey item = outputKey removed ∧ outputKey item = callKey removed := by
  unfold isCounterpart at h
  split at h
  next hcall =>
    have houtput := of_decide_eq_true h
    rw [hcall, outputKey_eq_none_of_callKey hcall, callKey_eq_none_of_outputKey houtput]
    exact ⟨rfl, houtput⟩
  next callId hcall houtput =>
    have hkey : callKey item = some (.function, callId) := by
      apply callKey_eq_function_iff.mpr
      split at h
      · exact .inl h
      · exact .inr h
    rw [hcall, houtput]
    exact ⟨hkey, outputKey_eq_none_of_callKey hkey⟩
  next hcall houtput =>
    have hkey := of_decide_eq_true h
    rw [hcall, houtput]
    exact ⟨hkey, outputKey_eq_none_of_callKey hkey⟩
  · cases h

/-- A call that has an output finds its counterpart. -/
theorem exists_isCounterpart_of_callKey (h : callKey removed = some key)
    (hmem : key ∈ outputKeys items) :
    ∃ envelope ∈ items, isCounterpart items removed envelope.item := by
  obtain ⟨output, houtput, hkey⟩ := mem_outputKeys.mp hmem
  refine ⟨output, houtput, ?_⟩
  rw [isCounterpart, h]
  exact decide_eq_true hkey

theorem exists_isCounterpart_of_outputKey (h : outputKey removed = some key)
    (hmem : key ∈ callKeys items) :
    ∃ envelope ∈ items, isCounterpart items removed envelope.item := by
  obtain ⟨call, hcall, hkey⟩ := mem_callKeys.mp hmem
  unfold isCounterpart
  rw [callKey_eq_none_of_outputKey h, h]
  obtain ⟨kind, callId⟩ := key
  cases kind with
  | function =>
    by_cases hfunction : items.any (isFunctionCall callId ·.item)
    · simp only [hfunction]
      exact any_eq_true.mp hfunction
    · refine ⟨call, hcall, ?_⟩
      dsimp only
      rw [if_neg hfunction]
      apply (callKey_eq_function_iff.mp hkey).resolve_left
      intro hcalled
      exact hfunction (any_eq_true.mpr ⟨call, hcall, hcalled⟩)
  | _ => exact ⟨call, hcall, decide_eq_true hkey⟩

theorem count_filterMap_middle {α β : Type*} [BEq β] [LawfulBEq β] [DecidableEq β]
    (f : α → Option β) (before : List α) (item : α) (after : List α) (key : β) :
    ((before ++ item :: after).filterMap f).count key =
      ((before ++ after).filterMap f).count key + if f item = some key then 1 else 0 := by
  simp only [count_filterMap, countP_append, countP_cons, beq_iff_eq]
  omega

variable {first : ResponseItemEnvelope}

/-- With the first item counted, calls and outputs of a key are equal in number. -/
theorem Balanced.count_cons (h : Balanced (first :: items)) (key : CallKey) :
    (callKeys items).count key + (if callKey first.item = some key then 1 else 0) =
      (outputKeys items).count key + if outputKey first.item = some key then 1 else 0 := by
  have hkey := h key
  rwa [callKeys, outputKeys, ← nil_append (first :: items), count_filterMap_middle,
    count_filterMap_middle] at hkey

/-- The oldest item of a balanced history goes alone if it is neither a call nor an output,
and else with its counterpart. -/
theorem removeFirstItem_cases (h : Balanced (first :: items)) :
    callKey first.item = none ∧ outputKey first.item = none ∧
        removeFirstItem (first :: items) = items ∨
      ∃ before other after, items = before ++ other :: after ∧
        removeFirstItem (first :: items) = before ++ after ∧
        callKey other.item = outputKey first.item ∧ outputKey other.item = callKey first.item := by
  rcases exists_or_eq_self_of_eraseP (isCounterpart items first.item ·.item) items with
    hsame | ⟨other, before, after, -, hother, hitems, herased⟩
  · have hnone : ¬ ∃ envelope ∈ items, isCounterpart items first.item envelope.item := by
      simpa using hsame
    refine .inl ⟨?_, ?_, hsame⟩
    · apply Option.eq_none_iff_forall_ne_some.mpr
      intro key hcall
      have hcount := h.count_cons key
      rw [if_pos hcall, outputKey_eq_none_of_callKey hcall, if_neg (by simp)] at hcount
      exact hnone (exists_isCounterpart_of_callKey hcall (count_pos_iff.mp (by omega)))
    · apply Option.eq_none_iff_forall_ne_some.mpr
      intro key houtput
      have hcount := h.count_cons key
      rw [if_pos houtput, callKey_eq_none_of_outputKey houtput, if_neg (by simp)] at hcount
      exact hnone (exists_isCounterpart_of_outputKey houtput (count_pos_iff.mp (by omega)))
  · exact .inr ⟨before, other, after, hitems, herased, keys_of_isCounterpart hother⟩

/-- Dropping the oldest item of a balanced history drops at most one item more, its counterpart, and
leaves the rest balanced and in order. -/
theorem removeFirstItem_keeps_balance (h : Balanced items) :
    Balanced (removeFirstItem items) ∧ removeFirstItem items <+ items.tail ∧
      items.tail.length ≤ (removeFirstItem items).length + 1 := by
  cases items with
  | nil => exact ⟨h, .refl [], Nat.zero_le _⟩
  | cons first items =>
    refine ⟨?_, eraseP_sublist, Nat.le_add_of_sub_le le_length_eraseP⟩
    intro key
    have hkey := h.count_cons key
    rcases removeFirstItem_cases h with ⟨hcall, houtput, hsame⟩ |
      ⟨before, other, after, rfl, herased, hcall, houtput⟩
    · rw [hsame]
      rwa [hcall, houtput] at hkey
    · rw [herased]
      rw [callKeys, outputKeys, count_filterMap_middle, count_filterMap_middle, hcall,
        houtput] at hkey
      unfold callKeys outputKeys
      omega

/-- An output before its call takes the call with it, and a later pair stays. -/
theorem removeFirstItem_keeps_balance_earlyOutput :
    Balanced [earlyOutput, lateCall, lateCall, earlyOutput] ∧
      Balanced (removeFirstItem [earlyOutput, lateCall, lateCall, earlyOutput]) ∧
      removeFirstItem [earlyOutput, lateCall, lateCall, earlyOutput] = [lateCall, earlyOutput] := by
  have hbalanced : Balanced [earlyOutput, lateCall, lateCall, earlyOutput] := by
    intro key
    rfl
  exact ⟨hbalanced, (removeFirstItem_keeps_balance hbalanced).1, by decide⟩

end Rexux.History
