import Mathlib.Algebra.Ring.Nat
import Rexux.Foundation.Runs
import Rexux.NetworkProxy.State

/-!
# The buffer of blocked requests

Blocked requests are buffered and counted in the state that edits of the domain lists and
reloads replace as a whole.  Edits and reloads copy the buffer under one lock and put the
copy back under another: a request recorded in between is lost, and one drained in between
is back again.  By `blocked_kept_iff` only forced reloads, which forget the count, go wrong
besides.
-/

namespace Rexux.NetworkProxy

open List

def maxBlockedEvents : ℕ := 200

variable {Config Entry : Type*}

/-- What an edit or a reload is about to install; an edit has the config that it changed. -/
structure PendingState (Config Entry : Type*) where
  previous : Option Config
  config : Config
  blocked : List Entry
  blockedTotal : ℕ

/-- `config` stands for the config and its constraints, which edits compare. -/
structure NetworkProxyState (Config Entry : Type*) where
  config : Config
  blocked : List Entry := []
  blockedTotal : ℕ := 0
  pending : List (PendingState Config Entry) := []

/-- What is done under one lock.  `updateDomainList` and `reloadIfNeeded` only copy the
state, and are given the config to install; `install` is their second lock. -/
inductive LockStep (Config Entry : Type*)
  | recordBlocked (entry : Entry)
  | drainBlocked
  | updateDomainList (config : Config)
  | reloadIfNeeded (config : Config)
  | forceReload (config : Config) (blockedTotal : ℕ)
  | install (index : ℕ)

/-- The latest records, within the limit. -/
def capBlocked (blocked : List Entry) : List Entry :=
  blocked.drop (blocked.length - maxBlockedEvents)

namespace NetworkProxyState

variable [DecidableEq Config]

variable (state : NetworkProxyState Config Entry)

def copy (previous : Option Config) (config : Config) : NetworkProxyState Config Entry :=
  { state with pending := state.pending ++ [⟨previous, config, state.blocked, state.blockedTotal⟩] }

def step : LockStep Config Entry → NetworkProxyState Config Entry
  | .recordBlocked entry =>
    { state with
      blocked := capBlocked (state.blocked ++ [entry])
      blockedTotal := min (state.blockedTotal + 1) (2 ^ 64 - 1) }
  | .drainBlocked => { state with blocked := [] }
  | .updateDomainList config => state.copy (some state.config) config
  | .reloadIfNeeded config => state.copy none config
  -- The buffer is carried over, and the count is that of the new state.
  | .forceReload config blockedTotal => { state with config, blockedTotal }
  | .install index =>
    match state.pending[index]? with
    | none => state
    | some new =>
      let pending := state.pending.eraseIdx index
      -- An edit of an old config starts again with a new copy.
      if new.previous.all (· = state.config) then
        ⟨new.config, new.blocked, new.blockedTotal, pending⟩
      else { state with pending }

def run (steps : List (LockStep Config Entry)) : NetworkProxyState Config Entry :=
  steps.foldl step state

/-- The step puts back no old buffer or count. -/
def Keeps : LockStep Config Entry → Prop
  | .forceReload _ blockedTotal => blockedTotal = state.blockedTotal
  | .install index =>
    ∀ new ∈ state.pending[index]?, new.previous.all (· = state.config) →
      new.blocked = state.blocked ∧ new.blockedTotal = state.blockedTotal
  | _ => True

end NetworkProxyState

/-- What records and drains alone do to the buffer. -/
def LockStep.buffer (blocked : List Entry) : LockStep Config Entry → List Entry
  | .recordBlocked entry => capBlocked (blocked ++ [entry])
  | .drainBlocked => []
  | _ => blocked

open NetworkProxyState LockStep

/-- The buffer has what was recorded since the last drain, up to the cap, and the count is
the number of records, up to its largest value.  So nothing drained is back, nothing else
is gone, and the count never falls. -/
def BlockedKept (state : NetworkProxyState Config Entry) (steps : List (LockStep Config Entry)) :
    Prop :=
  state.blocked = steps.foldl buffer [] ∧
    state.blockedTotal = min (steps.countP (· matches .recordBlocked _)) (2 ^ 64 - 1)

/-! ## Schedules -/

theorem forall₂_eraseIdx {α β : Type*} {R : α → β → Prop} {left : List α} {right : List β}
    (h : Forall₂ R left right) (index : ℕ) :
    Forall₂ R (left.eraseIdx index) (right.eraseIdx index) := by
  induction h generalizing index with
  | nil => exact .nil
  | cons hfirst hrest ih =>
    cases index with
    | zero => exact hrest
    | succ index => exact .cons hfirst (ih index)

theorem exists_getElem?_of_forall₂ {α β : Type*} {R : α → β → Prop} {left : List α}
    {right : List β} (h : Forall₂ R left right) {index : ℕ} {item : α}
    (hitem : left[index]? = some item) : ∃ other, right[index]? = some other ∧ R item other := by
  induction h generalizing index with
  | nil => cases hitem
  | cons hfirst hrest ih =>
    cases index with
    | zero =>
      cases hitem
      exact ⟨_, rfl, hfirst⟩
    | succ index => exact ih hitem

/-- The moments at which the pending states were copied, and the moment now. -/
def LockStep.noteTime (noted : List ℕ × ℕ) : LockStep Config Entry → List ℕ × ℕ
  | .updateDomainList _ | .reloadIfNeeded _ => (noted.1 ++ [noted.2], noted.2 + 1)
  | .install index => (noted.1.eraseIdx index, noted.2 + 1)
  | _ => (noted.1, noted.2 + 1)

def copyTimes (steps : List (LockStep Config Entry)) : List ℕ :=
  (steps.foldl noteTime ([], 0)).1

/-- Nothing is recorded from `time` on, and nothing drained that was there. -/
def Undisturbed (done : List (LockStep Config Entry)) (time : ℕ) : Prop :=
  (done.drop time).countP (· matches .recordBlocked _) = 0 ∧
    (.drainBlocked ∈ done.drop time → (done.take time).foldl buffer [] = [])

/-- Steps that neither record nor drain leave the buffer alone. -/
theorem foldl_buffer_of_undisturbed {steps : List (LockStep Config Entry)} {blocked : List Entry}
    (hrecords : steps.countP (· matches .recordBlocked _) = 0) :
    steps.foldl buffer blocked = blocked ↔ (.drainBlocked ∈ steps → blocked = []) := by
  induction steps generalizing blocked with
  | nil => simp
  | cons step steps ih =>
    rw [countP_cons, Nat.add_eq_zero_iff] at hrecords
    rw [foldl_cons]
    cases step with
    | recordBlocked entry => simp at hrecords
    | drainBlocked =>
      have hempty : steps.foldl buffer ([] : List Entry) = [] := (ih hrecords.1).mpr fun _ => rfl
      simp [buffer, hempty, eq_comm]
    | updateDomainList | reloadIfNeeded | forceReload | install =>
      simp [buffer, ih hrecords.1]

theorem snd_noteTime (done : List (LockStep Config Entry)) :
    (done.foldl noteTime ([], 0)).2 = done.length := by
  induction done using reverseRecOn with
  | nil => rfl
  | append_singleton done step ih =>
    rw [foldl_append, length_append, ← ih]
    cases step with
    | _ => rfl

variable [DecidableEq Config]

/-- What a step of a schedule must not do: put back a copy from before a record or a drain, or
another count than the number of records. -/
def OnSchedule (config : Config) (done : List (LockStep Config Entry)) :
    LockStep Config Entry → Prop
  | .forceReload _ blockedTotal => blockedTotal = done.countP (· matches .recordBlocked _)
  | .install index =>
    ∀ new ∈ (run { config } done).pending[index]?,
      new.previous.all (· = (run { config } done).config) →
      ∀ time ∈ (copyTimes done)[index]?, Undisturbed done time
  | _ => True

/-- A state was copied at `time`. -/
structure CopiedAt (config : Config) (done : List (LockStep Config Entry))
    (new : PendingState Config Entry) (time : ℕ) : Prop where
  time_le : time ≤ done.length
  blocked : new.blocked = (run { config } (done.take time)).blocked
  blockedTotal : new.blockedTotal = (run { config } (done.take time)).blockedTotal

theorem CopiedAt.concat {config : Config} {done : List (LockStep Config Entry)}
    {new : PendingState Config Entry} {time : ℕ} (h : CopiedAt config done new time)
    (step : LockStep Config Entry) : CopiedAt config (done ++ [step]) new time := by
  have htake : (done ++ [step]).take time = done.take time := take_append_of_le_length h.time_le
  refine ⟨?_, ?_, ?_⟩
  · rw [length_append]
    exact Nat.le_add_right_of_le h.time_le
  · rw [htake, h.blocked]
  · rw [htake, h.blockedTotal]

theorem copiedAt_length (config : Config) (done : List (LockStep Config Entry))
    (previous : Option Config) (later : Config) (step : LockStep Config Entry) :
    CopiedAt config (done ++ [step]) ⟨previous, later, (run { config } done).blocked,
      (run { config } done).blockedTotal⟩ done.length := by
  have htake : (done ++ [step]).take done.length = done := take_left
  refine ⟨?_, ?_, ?_⟩
  · rw [length_append]
    exact Nat.le_add_right _ _
  · rw [htake]
  · rw [htake]

theorem pending_install (state : NetworkProxyState Config Entry) (index : ℕ) :
    (state.step (.install index)).pending = state.pending.eraseIdx index := by
  rw [step]
  cases hnew : state.pending[index]? with
  | none => exact (eraseIdx_of_length_le (getElem?_eq_none_iff.mp hnew)).symm
  | some new =>
    dsimp only
    split <;> rfl

/-- The pending states are those that were copied at the noted moments. -/
theorem forall₂_copiedAt (config : Config) (done : List (LockStep Config Entry)) :
    Forall₂ (CopiedAt config done) (run { config } done).pending (copyTimes done) := by
  induction done using reverseRecOn with
  | nil => exact .nil
  | append_singleton done step ih =>
    have hkept : Forall₂ (CopiedAt config (done ++ [step])) (run { config } done).pending
        (copyTimes done) := ih.imp fun _ _ h => h.concat step
    have htime := snd_noteTime done
    rw [run, copyTimes, foldl_append, foldl_append, foldl_cons, foldl_nil, foldl_cons, foldl_nil]
    rw [copyTimes, run] at hkept
    cases step with
    | recordBlocked | drainBlocked | forceReload =>
      rw [NetworkProxyState.step]
      exact hkept
    | updateDomainList later | reloadIfNeeded later =>
      rw [NetworkProxyState.step, copy, noteTime, htime]
      exact rel_append hkept (.cons (copiedAt_length config done _ later _) .nil)
    | install index =>
      rw [pending_install, noteTime]
      exact forall₂_eraseIdx hkept index

/-- A step keeps the records unless it installs a copy that is out of date. -/
theorem BlockedKept.step_iff {state : NetworkProxyState Config Entry}
    {steps : List (LockStep Config Entry)} (h : BlockedKept state steps)
    (step : LockStep Config Entry) :
    BlockedKept (state.step step) (steps ++ [step]) ↔ state.Keeps step := by
  obtain ⟨hblocked, htotal⟩ := h
  rw [BlockedKept, foldl_append, ← hblocked, countP_append, countP_singleton]
  cases step with
  | recordBlocked entry =>
    simp only [step, foldl_cons, foldl_nil, buffer, Keeps, htotal, if_true,
      true_and, iff_true]
    omega
  | install index =>
    simp only [step, Keeps]
    cases state.pending[index]? with
    | none => simp [buffer, htotal]
    | some new =>
      dsimp only
      split
      next hcurrent => simp [buffer, htotal, hcurrent]
      next hstale => simp [buffer, htotal, hstale]
  | drainBlocked | updateDomainList | reloadIfNeeded | forceReload =>
    simp [step, copy, buffer, Keeps, htotal]

section Schedule

variable {config : Config} {done : List (LockStep Config Entry)}
  (hkept : ∀ before, before <+: done → BlockedKept (run { config } before) before)
  (hcount : done.countP (· matches .recordBlocked _) < 2 ^ 64 - 1)
include hkept hcount

/-- A copy is up to date exactly if nothing was recorded or drained since it was made. -/
theorem copy_unchanged_iff {new : PendingState Config Entry} {time : ℕ}
    (hcopied : CopiedAt config done new time) :
    (new.blocked = (run { config } done).blocked ∧
        new.blockedTotal = (run { config } done).blockedTotal) ↔ Undisturbed done time := by
  have hbegins : done.take time <+: done := take_prefix time done
  obtain ⟨hthen, hthenTotal⟩ := hkept (done.take time) hbegins
  obtain ⟨hnow, hnowTotal⟩ := hkept done prefix_rfl
  have hsplit := take_append_drop time done
  have hbuffer : done.foldl buffer [] =
      (done.drop time).foldl buffer ((done.take time).foldl buffer []) := by
    rw [← foldl_append, hsplit]
  have hrecords : done.countP (· matches .recordBlocked _) =
      (done.take time).countP (· matches .recordBlocked _) +
        (done.drop time).countP (· matches .recordBlocked _) := by
    rw [← countP_append, hsplit]
  rw [hcopied.blocked, hcopied.blockedTotal, hthen, hthenTotal, hnow, hnowTotal, hbuffer,
    Undisturbed]
  -- Equal counts leave only drains that can have changed the buffer.
  have htotals : min ((done.take time).countP (· matches .recordBlocked _)) (2 ^ 64 - 1) =
      min (done.countP (· matches .recordBlocked _)) (2 ^ 64 - 1) ↔
        (done.drop time).countP (· matches .recordBlocked _) = 0 := by
    omega
  rw [htotals, and_comm]
  refine and_congr_right fun hnone => ?_
  rw [eq_comm, foldl_buffer_of_undisturbed hnone]

theorem keeps_iff_onSchedule (step : LockStep Config Entry) :
    (run { config } done).Keeps step ↔ OnSchedule config done step := by
  cases step with
  | recordBlocked | drainBlocked | updateDomainList | reloadIfNeeded => rfl
  | forceReload later blockedTotal =>
    rw [Keeps, OnSchedule, (hkept done prefix_rfl).2, Nat.min_eq_left (Nat.le_of_lt hcount)]
  | install index =>
    rw [Keeps, OnSchedule]
    refine forall_congr' fun new => forall_congr' fun hnew => imp_congr_right fun _ => ?_
    obtain ⟨time, htime, hcopied⟩ :=
      exists_getElem?_of_forall₂ (forall₂_copiedAt config done) (Option.mem_def.mp hnew)
    rw [copy_unchanged_iff hkept hcount hcopied, htime]
    simp

end Schedule

/-- On every schedule the buffer and the count are right at every moment exactly if no
install puts back an old copy and no forced reload another count.  Below the largest count the
copy is an old one if since then something was recorded, or drained that was there. -/
theorem blocked_kept_iff (config : Config) (steps : List (LockStep Config Entry)) :
    ((∀ done, done <+: steps → BlockedKept (run { config } done) done) ↔
      ∀ done step, done ++ [step] <+: steps → (run { config } done).Keeps step) ∧
    (steps.countP (· matches .recordBlocked _) < 2 ^ 64 - 1 →
      ((∀ done, done <+: steps → BlockedKept (run { config } done) done) ↔
        ∀ done step, done ++ [step] <+: steps → OnSchedule config done step)) := by
  have hstep : ∀ (done : List (LockStep Config Entry)) step,
      BlockedKept (run { config } done) done →
      (BlockedKept (run { config } (done ++ [step])) (done ++ [step]) ↔
        (run { config } done).Keeps step) := by
    intro done step h
    rw [run, foldl_append]
    exact h.step_iff step
  refine ⟨Foundation.forall_prefix_iff ⟨rfl, rfl⟩ hstep steps, fun hcount => ?_⟩
  apply Foundation.forall_prefix_iff_of_history ⟨rfl, rfl⟩
  intro done step hdone hkept
  rw [hstep done step (hkept done prefix_rfl)]
  have hbefore := (prefix_append done [step]).trans hdone
  exact keeps_iff_onSchedule hkept
    (Nat.lt_of_le_of_lt hbefore.sublist.countP_le hcount) step

/-- A record is lost, a drained one is back, and the count is forgotten. -/
theorem blocked_not_kept :
    ¬ ∃ steps ∈ ([[.updateDomainList 1, .recordBlocked 1, .install 0],
        [.recordBlocked 1, .reloadIfNeeded 1, .drainBlocked, .install 0],
        [.recordBlocked 1, .forceReload 1 0]] : List (List (LockStep ℕ ℕ))),
      BlockedKept (run { config := 0 } steps) steps := by
  unfold BlockedKept
  decide

end Rexux.NetworkProxy
