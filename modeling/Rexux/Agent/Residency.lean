import Mathlib.Logic.Function.Basic
import Rexux.Foundation.Runs

/-!
# Agents kept loaded

A slot for a new agent is given while residents and pending slots are below the capacity.
At the capacity a candidate is taken off the list of residents, and goes back on it if it
turns out to be busy.  Its place may be given away in the meantime.
-/

namespace Rexux.Agent

open List

variable {ThreadId : Type*}

/-- Where a call of `reserve_slot` stands: at the head of its loop, about to count the
candidates, with that many left to scan, or with one that it examines. -/
inductive ReserveSlot (ThreadId : Type*)
  | tryReserve
  | residentCount
  | scan (candidates : ℕ)
  | examine (candidate : ThreadId) (candidates : ℕ)
  | returned

/-- `slots` counts the `V2ResidencySlot`s that are active. -/
structure V2Residency (ThreadId : Type*) where
  residents : List ThreadId := []
  pendingSlots : ℕ := 0
  slots : ℕ := 0
  calls : ℕ → ReserveSlot ThreadId := fun _ => .tryReserve

/-- What is done under one lock, or without one.  A candidate is given up when it is no
candidate or has been unloaded.  It is touched when it is busy or fails to shut down, which
ends its examination, or by another task. -/
inductive ResidencyStep (ThreadId : Type*)
  | advance (call : ℕ)
  | giveUp (call : ℕ) (unloaded : Bool)
  | touchExamined (call : ℕ) (ends : Bool)
  | touch (thread : ThreadId)
  | commitSlot (thread : ThreadId)
  | releasePendingSlot
  | remove (thread : ThreadId)

variable [DecidableEq ThreadId]

/-- The thread becomes the most recently used one. -/
def touchResident (residents : List ThreadId) (thread : ThreadId) : List ThreadId :=
  residents.filter (· ≠ thread) ++ [thread]

/-- The least recently used thread that is not protected, with the residents after the rotation. -/
def popLruCandidate (protectedThread : Option ThreadId) :
    ℕ → List ThreadId → Option ThreadId × List ThreadId
  | 0, residents => (none, residents)
  | _ + 1, [] => (none, [])
  | left + 1, candidate :: residents =>
    if some candidate = protectedThread then
      popLruCandidate protectedThread left (residents ++ [candidate])
    else (some candidate, residents)

namespace V2Residency

variable (state : V2Residency ThreadId) (capacity : ℕ)

def goTo (call : ℕ) (place : ReserveSlot ThreadId) : V2Residency ThreadId :=
  { state with calls := Function.update state.calls call place }

def touched (thread : ThreadId) : V2Residency ThreadId :=
  { state with residents := touchResident state.residents thread }

/-- One step of a reservation that is on its way. -/
def advance (protectedThread : Option ThreadId) (call : ℕ) : V2Residency ThreadId :=
  match state.calls call with
  | .tryReserve =>
    if capacity ≤ state.residents.length + state.pendingSlots then state.goTo call .residentCount
    else
      { state.goTo call .returned with
        pendingSlots := state.pendingSlots + 1
        slots := state.slots + 1 }
  | .residentCount => state.goTo call (.scan state.residents.length)
  | .scan (candidates + 1) =>
    let popped := popLruCandidate protectedThread state.residents.length state.residents
    let place := popped.1.elim .returned (.examine · candidates)
    { state.goTo call place with residents := popped.2 }
  | .scan 0 => state.goTo call .returned
  | _ => state

/-- Other threads than residents and examined ones are not touched. -/
def step (protectedThread : ℕ → Option ThreadId) : ResidencyStep ThreadId → V2Residency ThreadId
  | .advance call => state.advance capacity (protectedThread call) call
  | .giveUp call unloaded =>
    match state.calls call with
    | .examine _ candidates => state.goTo call (if unloaded then .tryReserve else .scan candidates)
    | _ => state
  | .touchExamined call ends =>
    match state.calls call with
    | .examine candidate candidates =>
      (if ends then state.goTo call (.scan candidates) else state).touched candidate
    | _ => state
  | .touch thread => if thread ∈ state.residents then state.touched thread else state
  | .commitSlot thread =>
    if state.slots = 0 then state
    else
      { state.touched thread with
        pendingSlots := state.pendingSlots - 1
        slots := state.slots - 1 }
  | .releasePendingSlot =>
    if state.slots = 0 then state
    else { state with pendingSlots := state.pendingSlots - 1, slots := state.slots - 1 }
  | .remove thread => { state with residents := state.residents.filter (· ≠ thread) }

/-- A schedule of reservations that take turns. -/
def run (protectedThread : ℕ → Option ThreadId) (steps : List (ResidencyStep ThreadId)) :
    V2Residency ThreadId :=
  steps.foldl (fun state => state.step capacity protectedThread) {}

/-- A candidate that goes back on the list is there already or finds room. -/
def FindsRoom : ResidencyStep ThreadId → Prop
  | .touchExamined call _ =>
    ∀ candidate candidates, state.calls call = .examine candidate candidates →
      candidate ∈ state.residents ∨ state.residents.length + state.pendingSlots < capacity
  | _ => True

end V2Residency

open V2Residency

theorem length_popLruCandidate_le (protectedThread : Option ThreadId) (left : ℕ)
    (residents : List ThreadId) :
    (popLruCandidate protectedThread left residents).2.length ≤ residents.length := by
  induction left generalizing residents with
  | zero => exact Nat.le_refl _
  | succ left ih =>
    cases residents with
    | nil => exact Nat.le_refl _
    | cons candidate residents =>
      rw [popLruCandidate]
      split
      · simpa using ih (residents ++ [candidate])
      · exact Nat.le_succ _

theorem length_touchResident_cases (residents : List ThreadId) (thread : ThreadId) :
    (touchResident residents thread).length ≤ residents.length ∧ thread ∈ residents ∨
      (touchResident residents thread).length = residents.length + 1 ∧ thread ∉ residents := by
  rw [touchResident, length_append, length_singleton]
  by_cases hmem : thread ∈ residents
  · exact .inl ⟨length_filter_lt_length_iff_exists.mpr ⟨thread, hmem, by simp⟩, hmem⟩
  · refine .inr ⟨?_, hmem⟩
    rw [filter_eq_self.mpr]
    exact fun other hother => decide_eq_true fun heq => hmem (heq ▸ hother)

variable {capacity : ℕ} {protectedThread : ℕ → Option ThreadId}

/-- The counted slots are the pending ones at every time. -/
theorem slots_run (steps : List (ResidencyStep ThreadId)) :
    (run capacity protectedThread steps).slots =
      (run capacity protectedThread steps).pendingSlots := by
  induction steps using reverseRecOn with
  | nil => rfl
  | append_singleton steps step ih =>
    rw [run, foldl_append]
    cases step with
    | advance call => grind [step, advance, goTo, run]
    | _ => grind [step, goTo, touched, run]

/-- One step stays within the capacity exactly if it finds room. -/
theorem step_le_iff {state : V2Residency ThreadId} (hslots : state.slots = state.pendingSlots)
    (hle : state.residents.length + state.pendingSlots ≤ capacity)
    (step : ResidencyStep ThreadId) :
    (state.step capacity protectedThread step).residents.length +
        (state.step capacity protectedThread step).pendingSlots ≤ capacity ↔
      state.FindsRoom capacity step := by
  have htouch := length_touchResident_cases state.residents
  cases step with
  | advance call =>
    have hpop := length_popLruCandidate_le (protectedThread call) state.residents.length
      state.residents
    grind [step, advance, goTo, FindsRoom]
  | touchExamined call =>
    -- The only step that adds a resident without a slot for it.
    cases hcall : state.calls call with
    | _ => grind [step, goTo, touched, FindsRoom]
  | remove thread =>
    have hfilter := length_filter_le (· ≠ thread) state.residents
    grind [step, FindsRoom]
  | _ => grind [step, goTo, touched, FindsRoom]

/-- On every schedule residents and pending slots stay within the capacity exactly if
every candidate that goes back on the list finds room. -/
theorem within_capacity_iff (capacity : ℕ) (protectedThread : ℕ → Option ThreadId)
    (steps : List (ResidencyStep ThreadId)) :
    (∀ done, done <+: steps → (run capacity protectedThread done).residents.length +
        (run capacity protectedThread done).pendingSlots ≤ capacity) ↔
      ∀ done step, done ++ [step] <+: steps →
        (run capacity protectedThread done).FindsRoom capacity step := by
  apply Foundation.forall_prefix_iff
  · exact Nat.zero_le _
  · intro done step hle
    rw [run, foldl_append]
    exact step_le_iff (slots_run done) hle step

/-- Room for one agent: while the second reservation examines the first agent, the third
one takes its place, and then the first agent is busy. -/
theorem place_given_away :
    let state := run 1 (fun _ => none) [.advance 0, .commitSlot 7, .advance 1, .advance 1,
      .advance 1, .advance 2, .touchExamined 1 true]
    ¬ state.residents.length + state.pendingSlots ≤ 1 := by
  decide

end Rexux.Agent
