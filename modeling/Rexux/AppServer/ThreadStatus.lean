import Rexux.Foundation.Runs
import Mathlib.Data.List.Chain

/-!
# Notifications of the status of a thread

One thread as its watch manager sees it, under arbitrary updates of its runtime facts.  A
call computes its notification under the lock and sends it when the lock is released, so
that calls can overtake each other.  Watchers are not modelled.
-/

namespace Rexux.AppServer

open List

/-- What an active thread is waiting for. -/
inductive ThreadActiveFlag
  | waitingOnApproval
  | waitingOnUserInput
  deriving DecidableEq

/-- The status of a thread as clients see it. -/
inductive ThreadStatus
  | notLoaded
  | idle
  | systemError
  | active (activeFlags : List ThreadActiveFlag)
  deriving DecidableEq

/-- What the manager knows about a thread. -/
structure RuntimeFacts where
  isLoaded : Bool := false
  running : Bool := false
  pendingPermissionRequests : ℕ := 0
  pendingUserInputRequests : ℕ := 0
  hasSystemError : Bool := false

/-- The status that follows from the facts. -/
def loadedThreadStatus (runtime : RuntimeFacts) : ThreadStatus :=
  let activeFlags : List ThreadActiveFlag :=
    (if 0 < runtime.pendingPermissionRequests then [.waitingOnApproval] else []) ++
      if 0 < runtime.pendingUserInputRequests then [.waitingOnUserInput] else []
  if !runtime.isLoaded then .notLoaded
  else if runtime.running ∨ activeFlags ≠ [] then .active activeFlags
  else if runtime.hasSystemError then .systemError
  else .idle

/-- A call updates the facts under the lock, where none removes the thread, and any of the
calls that have released the lock may be the next to send. -/
inductive WatchStep
  | mutate (update : Option (RuntimeFacts → RuntimeFacts))
  | send (position : ℕ)

/-- The facts of one thread, and the notifications that were issued for it. -/
structure ThreadWatch where
  runtime : Option RuntimeFacts := none
  unsent : List ThreadStatus := []
  sent : List ThreadStatus := []

namespace ThreadWatch

variable (watch : ThreadWatch)

/-- The status of the thread if it is known. -/
def statusFor : Option ThreadStatus := watch.runtime.map loadedThreadStatus

def loadedStatus : ThreadStatus := watch.statusFor.getD .notLoaded

/-- An update of the facts; a thread that is updated counts as loaded. -/
def updateRuntime (update : RuntimeFacts → RuntimeFacts) : RuntimeFacts :=
  update { watch.runtime.getD {} with isLoaded := true }

/-- What a change of the facts is announced by: the new status if it is another one. -/
def notification : Option (RuntimeFacts → RuntimeFacts) → Option ThreadStatus
  | some update =>
    let status := loadedThreadStatus (watch.updateRuntime update)
    if watch.statusFor = some status then none else some status
  | none =>
    if watch.statusFor.isSome ∧ watch.statusFor ≠ some .notLoaded then some .notLoaded else none

/-- One step: a change of the facts under the lock, or the send that follows it. -/
def step : WatchStep → ThreadWatch
  | .mutate update =>
    { watch with
      runtime := update.map watch.updateRuntime
      unsent := watch.unsent ++ (watch.notification update).toList }
  | .send position =>
    { watch with
      unsent := watch.unsent.eraseIdx position
      sent := watch.sent ++ watch.unsent[position]?.toList }

def run (steps : List WatchStep) : ThreadWatch := steps.foldl step watch

/-- All notifications in the order in which they were made. -/
def issued : List ThreadStatus := watch.sent ++ watch.unsent

/-- A thread that is not there is shut down, and its status was announced before. -/
def Repeats : WatchStep → Prop
  | .mutate (some update) =>
    watch.runtime = none ∧ (watch.updateRuntime update).isLoaded = false ∧ watch.issued ≠ []
  | _ => False

/-- What was announced last is the status. -/
def IsCurrent : Prop := ∀ status ∈ watch.issued.getLast?, watch.loadedStatus = status

variable {watch} {update : Option (RuntimeFacts → RuntimeFacts)} {steps : List WatchStep}

theorem loadedThreadStatus_eq_notLoaded_iff {runtime : RuntimeFacts} :
    loadedThreadStatus runtime = .notLoaded ↔ runtime.isLoaded = false := by
  unfold loadedThreadStatus
  cases runtime.isLoaded with
  | false => simp
  | true =>
    simp only [Bool.not_true, Bool.false_eq_true, if_false, Bool.true_eq_false, iff_false]
    split_ifs <;> simp

theorem loadedStatus_mutate_some (update : RuntimeFacts → RuntimeFacts) :
    (watch.step (.mutate (some update))).loadedStatus =
      loadedThreadStatus (watch.updateRuntime update) := rfl

theorem loadedStatus_mutate_none : (watch.step (.mutate none)).loadedStatus = .notLoaded := rfl

/-- Nothing is announced only where the status stays as it was. -/
theorem notification_eq_none (h : watch.notification update = none) :
    (watch.step (.mutate update)).loadedStatus = watch.loadedStatus ∧
      ¬watch.Repeats (.mutate update) := by
  cases update with
  | some update =>
    simp only [notification] at h
    split_ifs at h with hsame
    -- The thread is there, with the status that the update leaves.
    refine ⟨?_, ?_⟩
    · rw [loadedStatus_mutate_some, loadedStatus, hsame, Option.getD_some]
    · rintro ⟨hruntime, -, -⟩
      simp [statusFor, hruntime] at hsame
  | none =>
    simp only [notification] at h
    split_ifs at h with hthere
    refine ⟨?_, fun hrepeats => hrepeats⟩
    rw [loadedStatus_mutate_none, loadedStatus]
    cases hstatus : watch.statusFor with
    | none => rfl
    | some status =>
      by_contra hne
      exact hthere ⟨by rw [hstatus]; rfl, by
        rw [hstatus]
        exact fun heq => hne (Option.some.inj heq).symm⟩

theorem notification_eq_some {status : ThreadStatus} (h : watch.notification update = some status) :
    (watch.step (.mutate update)).loadedStatus = status ∧
      (watch.Repeats (.mutate update) ↔ watch.issued ≠ [] ∧ watch.loadedStatus = status) := by
  cases update with
  | some update =>
    simp only [notification] at h
    split_ifs at h with hsame
    obtain rfl := Option.some.inj h
    refine ⟨loadedStatus_mutate_some update, ?_⟩
    cases hruntime : watch.runtime with
    | none =>
      -- A thread that is not there shows as not loaded.
      have hstatus : watch.loadedStatus = .notLoaded := by
        rw [loadedStatus, statusFor, hruntime]
        rfl
      rw [hstatus, eq_comm (a := ThreadStatus.notLoaded), loadedThreadStatus_eq_notLoaded_iff]
      simp only [Repeats, hruntime, true_and]
      exact and_comm
    | some runtime =>
      have hstatus : watch.statusFor = some watch.loadedStatus := by
        rw [loadedStatus, statusFor, hruntime]
        rfl
      rw [hstatus, Option.some.injEq] at hsame
      simp [Repeats, hruntime, hsame]
  | none =>
    simp only [notification] at h
    split_ifs at h with hthere
    obtain rfl := Option.some.inj h
    refine ⟨loadedStatus_mutate_none, ?_⟩
    obtain ⟨status, hstatus⟩ := Option.isSome_iff_exists.mp hthere.1
    have hne : watch.loadedStatus ≠ .notLoaded := by
      rw [loadedStatus, hstatus]
      rintro rfl
      exact hthere.2 hstatus
    simp [Repeats, hne]

theorem IsCurrent.after (hlast : watch.IsCurrent) (step : WatchStep)
    (hfirst : ∀ position, step = .send position → position = 0) :
    (watch.step step).IsCurrent ∧ ((watch.step step).issued.IsChain (· ≠ ·) ↔
      watch.issued.IsChain (· ≠ ·) ∧ ¬watch.Repeats step) := by
  cases step with
  | send position =>
    obtain rfl := hfirst position rfl
    have hissued : (watch.step (.send 0)).issued = watch.issued := by
      cases h : watch.unsent <;> simp [ThreadWatch.step, issued, h]
    rw [IsCurrent, hissued]
    exact ⟨hlast, by simp [Repeats]⟩
  | mutate update =>
    have hissued : (watch.step (.mutate update)).issued =
        watch.issued ++ (watch.notification update).toList := (append_assoc ..).symm
    rw [IsCurrent, hissued]
    cases h : watch.notification update with
    | none =>
      obtain ⟨hstatus, hrepeats⟩ := notification_eq_none h
      rw [hstatus, Option.toList_none, append_nil]
      exact ⟨hlast, by simp [hrepeats]⟩
    | some status =>
      obtain ⟨hstatus, hrepeats⟩ := notification_eq_some h
      refine ⟨by simp [hstatus], ?_⟩
      rw [hrepeats, isChain_append]
      cases hend : watch.issued.getLast? with
      | none => simp [getLast?_eq_none_iff.mp hend]
      | some last =>
        have hne : watch.issued ≠ [] := by grind
        simp [hlast last hend, hne]

/-- While notifications are sent in their order the last one is the status, and two in a row
are equal only where a step repeats one. -/
theorem IsCurrent.run (hlast : watch.IsCurrent)
    (hfirst : ∀ position, .send position ∈ steps → position = 0) :
    (watch.run steps).IsCurrent ∧ ((watch.run steps).issued.IsChain (· ≠ ·) ↔
      watch.issued.IsChain (· ≠ ·) ∧
        ∀ done step, done ++ [step] <+: steps → ¬(watch.run done).Repeats step) := by
  induction steps generalizing watch with
  | nil => simpa [ThreadWatch.run] using hlast
  | cons step steps ih =>
    rw [Foundation.forall_concat_prefix_cons, ← and_assoc]
    obtain ⟨hstep, hchain⟩ := hlast.after step fun position h => hfirst position (by simp [h])
    obtain ⟨hnext, hrest⟩ := ih hstep fun position h => hfirst position (mem_cons_of_mem _ h)
    exact ⟨hnext, hrest.trans (and_congr_left' hchain)⟩

/-- Where the notifications are sent in the order of the lock, the last one carries the
status, and two in a row are the same exactly if a thread that is not there is shut down. -/
theorem notifications_end_in_status (hfirst : ∀ position, .send position ∈ steps → position = 0)
    (hreturned : (run {} steps).unsent = []) :
    (∀ status, (run {} steps).sent.getLast? = some status →
        (run {} steps).loadedStatus = status) ∧
      ((run {} steps).sent.IsChain (· ≠ ·) ↔
        ∀ done step, done ++ [step] <+: steps → ¬(run {} done).Repeats step) := by
  have hstart : IsCurrent {} := by simp [IsCurrent, issued]
  simpa [IsCurrent, issued, hreturned] using hstart.run hfirst

end ThreadWatch

open ThreadWatch

def noteTurnStarted (runtime : RuntimeFacts) : RuntimeFacts :=
  { runtime with isLoaded := true, running := true, hasSystemError := false }

/-- What the end of a turn leaves. -/
def clearActiveState (runtime : RuntimeFacts) : RuntimeFacts :=
  { runtime with
    running := false, pendingPermissionRequests := 0, pendingUserInputRequests := 0 }

def noteThreadShutdown (runtime : RuntimeFacts) : RuntimeFacts :=
  { clearActiveState runtime with isLoaded := false }

/-- Two calls that overlap and send in the order of the lock. -/
theorem turn_start_announced :
    (run {} [.mutate (some noteTurnStarted), .mutate (some clearActiveState), .send 0,
      .send 0]).loadedStatus = .idle :=
  (notifications_end_in_status (by simp) rfl).1 _ rfl

/-- Two calls that send in the other order, and a thread that is removed and shut down. -/
theorem status_not_announced :
    ∃ overtaking repeating : List WatchStep,
      (run {} overtaking).unsent = [] ∧ (run {} overtaking).sent.getLast? = some (.active []) ∧
        (run {} overtaking).loadedStatus = .idle ∧ (run {} repeating).unsent = [] ∧
        (run {} repeating).sent = [.active [], .notLoaded, .notLoaded] :=
  ⟨[.mutate (some noteTurnStarted), .mutate (some clearActiveState), .send 1, .send 0],
    [.mutate (some noteTurnStarted), .send 0, .mutate none, .send 0,
      .mutate (some noteThreadShutdown), .send 0], by decide⟩

end Rexux.AppServer
