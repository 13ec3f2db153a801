import Mathlib.Algebra.Group.Pi.Lemmas
import Mathlib.Algebra.Order.Ring.Nat
import Rexux.Foundation.Dict

/-!
# Reference counts of watched paths

A requested path is watched at its actual path: while it is missing, that is the nearest
directory above it.  An event moves the watches first and the counts afterwards.
-/

namespace Rexux.FileWatcher

open Foundation Function List

structure WatchPath (Path : Type) where
  path : Path
  recursive : Bool
deriving DecidableEq

structure SubscriberWatchKey (Path : Type) where
  requested : WatchPath Path
  matched : WatchPath Path
deriving DecidableEq

structure SubscriberWatchState (Path : Type) where
  actual : WatchPath Path
  count : ℕ
  count_pos : 0 < count

structure PathWatchCounts where
  nonRecursive : ℕ
  recursive : ℕ

namespace PathWatchCounts

variable (counts : PathWatchCounts) (recursive : Bool) (amount : ℕ)

def get : ℕ := if recursive then counts.recursive else counts.nonRecursive

def modify (f : ℕ → ℕ) : PathWatchCounts :=
  if recursive then { counts with recursive := f counts.recursive }
  else { counts with nonRecursive := f counts.nonRecursive }

def increment : PathWatchCounts := counts.modify recursive (· + amount)

def decrement : PathWatchCounts := counts.modify recursive (· - amount)

def isEmpty : Bool := counts.nonRecursive == 0 && counts.recursive == 0

end PathWatchCounts

/-- The entries by path; `belowZero` notes that a decrement was larger than its count. -/
structure PathRefCounts (Path : Type) where
  entries : Path → Option PathWatchCounts
  belowZero : Bool

variable {Path : Type} [DecidableEq Path]

namespace PathRefCounts

variable (refs : PathRefCounts Path) (actual : WatchPath Path) (amount : ℕ)

def increment : PathRefCounts Path :=
  { refs with
    entries := update refs.entries actual.path
      (some (((refs.entries actual.path).getD ⟨0, 0⟩).increment actual.recursive amount)) }

def decrement : PathRefCounts Path :=
  match refs.entries actual.path with
  | none => refs
  | some counts =>
    let left := counts.decrement actual.recursive amount
    ⟨update refs.entries actual.path (if left.isEmpty then none else some left),
      refs.belowZero || counts.get actual.recursive < amount⟩

variable (registered : WatchPath Path → ℕ) {actual amount}

/-- The table that says how often each path is registered. -/
def of : PathRefCounts Path where
  entries path :=
    let counts : PathWatchCounts := ⟨registered ⟨path, false⟩, registered ⟨path, true⟩⟩
    if counts.isEmpty then none else some counts
  belowZero := false

variable (hamount : 0 < amount)
include hamount

theorem increment_of :
    (of registered).increment actual amount = of (registered + Pi.single actual amount) := by
  obtain ⟨path, recursive⟩ := actual
  simp only [increment, of, mk.injEq, and_true]
  cases recursive <;>
    grind [PathWatchCounts.increment, PathWatchCounts.modify, PathWatchCounts.isEmpty, Pi.add_apply]

theorem decrement_of :
    (of (registered + Pi.single actual amount)).decrement actual amount = of registered := by
  obtain ⟨path, recursive⟩ := actual
  rw [decrement]
  split
  next hnone => cases recursive <;> grind [of, PathWatchCounts.isEmpty, Pi.add_apply]
  next counts hcounts =>
    have hother : ∀ other, other ≠ path →
        (of (registered + Pi.single ⟨path, recursive⟩ amount)).entries other =
          (of registered).entries other := fun other hne => by simp [of, hne]
    simp only [of, Option.ite_none_left_eq_some, Option.some.injEq] at hcounts
    obtain ⟨-, rfl⟩ := hcounts
    refine congrArg₂ mk (update_eq_iff.mpr ⟨?_, hother⟩) ?_
    · cases recursive <;> simp [PathWatchCounts.decrement, PathWatchCounts.modify]
    · cases recursive <;> simp [of, PathWatchCounts.get]

end PathRefCounts

/-- The files as `actualWatchPath` finds them; `ancestors` starts at the parent. -/
structure FileSystem (Path : Type) where
  pathExists : Path → Bool
  isDir : Path → Bool
  ancestors : Path → List Path

def actualWatchPath (files : FileSystem Path) (requested : WatchPath Path) : WatchPath Path :=
  if files.pathExists requested.path then requested
  else ((files.ancestors requested.path).find? files.isDir).elim requested (⟨·, false⟩)

abbrev WatchedPaths (Path : Type) [DecidableEq Path] :=
  Dict (SubscriberWatchKey Path) (SubscriberWatchState Path)

/-- Numbers of subscribers are not used twice. -/
structure WatchState (Path : Type) [DecidableEq Path] where
  nextSubscriberId : ℕ
  pathRefCounts : PathRefCounts Path
  subscribers : Dict ℕ (WatchedPaths Path)
  fresh : ∀ id, nextSubscriberId ≤ id → subscribers.get? id = none

/-- A watch as it was, and the actual path that it is moved to. -/
abbrev ActualWatchMove (Path : Type) := SubscriberWatchState Path × WatchPath Path

def applyActualWatchMove (refs : PathRefCounts Path) (move : ActualWatchMove Path) :
    PathRefCounts Path :=
  if move.1.actual = move.2 then refs
  else (refs.decrement move.1.actual move.1.count).increment move.2 move.1.count

/-- A walk over the watches comes to one of them, with the files as they are then. -/
structure Visit (Path : Type) where
  subscriberId : ℕ
  key : SubscriberWatchKey Path
  files : FileSystem Path

def Visit.actual (visit : Visit Path) : WatchPath Path :=
  actualWatchPath visit.files visit.key.requested

namespace WatchState

def default : WatchState Path := ⟨0, ⟨fun _ => none, false⟩, .empty, fun _ _ => rfl⟩

variable (state : WatchState Path) {subscriberId : ℕ} {watched : WatchedPaths Path}

def addSubscriber : WatchState Path :=
  { state with
    nextSubscriberId := state.nextSubscriberId + 1
    subscribers := state.subscribers.insert state.nextSubscriberId .empty
    fresh id hid := by
      rw [Dict.get?_insert, if_neg (Nat.ne_of_gt hid), state.fresh id (Nat.le_of_succ_le hid)] }

def setWatchedPaths (hwatched : state.subscribers.get? subscriberId = some watched)
    (watchedPaths : WatchedPaths Path) : WatchState Path :=
  { state with
    subscribers := state.subscribers.insert subscriberId watchedPaths
    fresh id hid := by
      have hnone := state.fresh id hid
      rw [Dict.get?_insert, hnone, if_neg]
      rintro rfl
      cases hnone.symm.trans hwatched }

def registerPath (registration : Visit Path) : WatchState Path :=
  match hwatched : state.subscribers.get? registration.subscriberId with
  | none => state
  | some watched =>
    let watch := (watched.get? registration.key).elim ⟨registration.actual, 1, Nat.one_pos⟩
      fun watch => ⟨watch.actual, watch.count + 1, watch.count.succ_pos⟩
    { state.setWatchedPaths hwatched (watched.insert registration.key watch) with
      pathRefCounts := state.pathRefCounts.increment watch.actual 1 }

def unregisterPath (subscriberId : ℕ) (key : SubscriberWatchKey Path) : WatchState Path :=
  match hwatched : state.subscribers.get? subscriberId with
  | none => state
  | some watched =>
    match watched.get? key with
    | none => state
    | some watch =>
      let watchedPaths :=
        if h : watch.count - 1 = 0 then watched.erase key
        else watched.insert key ⟨watch.actual, watch.count - 1, Nat.pos_of_ne_zero h⟩
      { state.setWatchedPaths hwatched watchedPaths with
        pathRefCounts := state.pathRefCounts.decrement watch.actual 1 }

def removeSubscriber (subscriberId : ℕ) : WatchState Path :=
  match state.subscribers.get? subscriberId with
  | none => state
  | some watched =>
    { state with
      subscribers := state.subscribers.erase subscriberId
      pathRefCounts := watched.entries.foldl
        (fun refs entry => refs.decrement entry.2.actual entry.2.count) state.pathRefCounts
      fresh id hid := by rw [Dict.get?_erase, state.fresh id hid, ite_self] }

end WatchState

def moveActual (moved : WatchState Path × List (ActualWatchMove Path)) (visit : Visit Path) :
    WatchState Path × List (ActualWatchMove Path) :=
  match hwatched : moved.1.subscribers.get? visit.subscriberId with
  | none => moved
  | some watched =>
    match watched.get? visit.key with
    | none => moved
    | some watch =>
      if watch.actual = visit.actual then moved
      else
        (moved.1.setWatchedPaths hwatched
          (watched.insert visit.key { watch with actual := visit.actual }),
          moved.2 ++ [(watch, visit.actual)])

/-- The hash maps are walked in any order, and the files may change during the walk. -/
def WatchState.notifySubscribers (state : WatchState Path) (visits : List (Visit Path)) :
    WatchState Path :=
  let moved := visits.foldl moveActual (state, [])
  { moved.1 with pathRefCounts := moved.2.foldl applyActualWatchMove moved.1.pathRefCounts }

/-- A call with several paths is one call for each of them. -/
inductive WatchCall (Path : Type)
  | addSubscriber
  | registerPath (registration : Visit Path)
  | unregisterPath (subscriberId : ℕ) (key : SubscriberWatchKey Path)
  | removeSubscriber (subscriberId : ℕ)
  | notifySubscribers (visits : List (Visit Path))

def WatchState.call (state : WatchState Path) : WatchCall Path → WatchState Path
  | .addSubscriber => state.addSubscriber
  | .registerPath registration => state.registerPath registration
  | .unregisterPath subscriberId key => state.unregisterPath subscriberId key
  | .removeSubscriber subscriberId => state.removeSubscriber subscriberId
  | .notifySubscribers visits => state.notifySubscribers visits

def WatchState.run (calls : List (WatchCall Path)) : WatchState Path := calls.foldl call default

/-! ## The counts are those of the watches -/

def WatchedPaths.registered (watched : WatchedPaths Path) : WatchPath Path → ℕ :=
  watched.total fun watch => Pi.single watch.actual watch.count

/-- How often each path is watched, over all subscribers. -/
def WatchState.registered (state : WatchState Path) : WatchPath Path → ℕ :=
  state.subscribers.total WatchedPaths.registered

variable {state : WatchState Path} {refs : PathRefCounts Path} {subscriberId : ℕ}
  {watched : WatchedPaths Path} {key : SubscriberWatchKey Path}

theorem WatchedPaths.registered_insert (watch : SubscriberWatchState Path) :
    registered (watched.insert key watch) =
      registered (watched.erase key) + Pi.single watch.actual watch.count :=
  watched.total_insert _ key watch

theorem WatchedPaths.registered_eq {watch : SubscriberWatchState Path}
    (hwatch : watched.get? key = some watch) :
    watched.registered = registered (watched.erase key) + Pi.single watch.actual watch.count := by
  rw [registered, watched.total_eq_erase _ key, hwatch]
  rfl

theorem WatchState.registered_eq (hwatched : state.subscribers.get? subscriberId = some watched) :
    state.registered = (state.subscribers.erase subscriberId).total WatchedPaths.registered +
      watched.registered := by
  rw [registered, state.subscribers.total_eq_erase _ subscriberId, hwatched]
  rfl

theorem WatchState.registered_setWatchedPaths
    (hwatched : state.subscribers.get? subscriberId = some watched)
    (watchedPaths : WatchedPaths Path) :
    (state.setWatchedPaths hwatched watchedPaths).registered =
      (state.subscribers.erase subscriberId).total WatchedPaths.registered +
        watchedPaths.registered :=
  state.subscribers.total_insert _ subscriberId watchedPaths

theorem foldl_decrement (rest : WatchPath Path → ℕ)
    (entries : List (SubscriberWatchKey Path × SubscriberWatchState Path)) :
    entries.foldl (fun refs entry => refs.decrement entry.2.actual entry.2.count)
      (.of (rest + (entries.map fun entry => Pi.single entry.2.actual entry.2.count).sum)) =
        PathRefCounts.of rest := by
  induction entries with
  | nil => simp
  | cons entry entries ih =>
    rw [foldl_cons, map_cons, sum_cons, ← add_assoc, add_right_comm,
      PathRefCounts.decrement_of _ entry.2.count_pos, ih]

def WatchState.IsBalanced (state : WatchState Path) : Prop :=
  state.pathRefCounts = .of state.registered

/-- The moves that are still to be applied make up for the watches moved already. -/
def IsMoved (moved : WatchState Path × List (ActualWatchMove Path)) : Prop :=
  moved.2.foldl applyActualWatchMove moved.1.pathRefCounts = .of moved.1.registered

theorem IsMoved.moveActual {moved : WatchState Path × List (ActualWatchMove Path)}
    (h : IsMoved moved) (visit : Visit Path) : IsMoved (moveActual moved visit) := by
  unfold FileWatcher.moveActual
  split
  · exact h
  next watched hwatched =>
    split
    · exact h
    next watch hwatch =>
      split
      · exact h
      next hmoved =>
        rw [IsMoved, moved.1.registered_eq hwatched, WatchedPaths.registered_eq hwatch] at h
        rw [IsMoved, WatchState.registered_setWatchedPaths, WatchedPaths.registered_insert,
          foldl_append]
        change applyActualWatchMove (moved.2.foldl _ moved.1.pathRefCounts) _ = _
        rw [h, applyActualWatchMove, if_neg hmoved, ← add_assoc,
          PathRefCounts.decrement_of _ watch.count_pos,
          PathRefCounts.increment_of _ watch.count_pos, add_assoc]

namespace WatchState.IsBalanced

variable (h : state.IsBalanced)
include h

theorem addSubscriber : state.addSubscriber.IsBalanced := by
  have hnone := state.fresh _ (Nat.le_refl _)
  have hsame : state.addSubscriber.registered = state.registered := by
    rw [registered, registered, WatchState.addSubscriber, Dict.total_insert,
      state.subscribers.total_eq_erase _ state.nextSubscriberId, hnone]
    rfl
  rw [IsBalanced, hsame]
  exact h

theorem registerPath (registration : Visit Path) :
    (state.registerPath registration).IsBalanced := by
  unfold WatchState.registerPath
  split
  · exact h
  next watched hwatched =>
    rw [IsBalanced, state.registered_eq hwatched] at h
    change state.pathRefCounts.increment _ 1 = .of (state.setWatchedPaths hwatched _).registered
    rw [h, PathRefCounts.increment_of _ Nat.one_pos, registered_setWatchedPaths,
      WatchedPaths.registered_insert, add_assoc]
    cases hwatch : watched.get? registration.key with
    | none =>
      rw [WatchedPaths.registered, watched.total_eq_erase _ registration.key, hwatch]
      rfl
    | some watch =>
      rw [WatchedPaths.registered_eq hwatch, add_assoc, Option.elim_some, Pi.single_add]

theorem unregisterPath (subscriberId : ℕ) (key : SubscriberWatchKey Path) :
    (state.unregisterPath subscriberId key).IsBalanced := by
  unfold WatchState.unregisterPath
  split
  · exact h
  next watched hwatched =>
    split
    · exact h
    next watch hwatch =>
      have hcount : (Pi.single watch.actual watch.count : WatchPath Path → ℕ) =
          Pi.single watch.actual (watch.count - 1) + Pi.single watch.actual 1 := by
        rw [← Pi.single_add, Nat.sub_add_cancel watch.count_pos]
      rw [IsBalanced, state.registered_eq hwatched, WatchedPaths.registered_eq hwatch, hcount,
        ← add_assoc, ← add_assoc] at h
      change state.pathRefCounts.decrement _ 1 = .of (state.setWatchedPaths hwatched _).registered
      rw [h, PathRefCounts.decrement_of _ Nat.one_pos, registered_setWatchedPaths, add_assoc]
      split
      next hnone => rw [hnone, Pi.single_zero, add_zero]
      · rw [WatchedPaths.registered_insert]

theorem removeSubscriber (subscriberId : ℕ) : (state.removeSubscriber subscriberId).IsBalanced := by
  unfold WatchState.removeSubscriber
  split
  · exact h
  next watched hwatched =>
    rw [IsBalanced, state.registered_eq hwatched] at h
    rw [h]
    exact foldl_decrement _ watched.entries

theorem notifySubscribers (visits : List (Visit Path)) :
    (state.notifySubscribers visits).IsBalanced := by
  have hmoved : IsMoved (visits.foldl moveActual (state, [])) :=
    foldlRecOn visits moveActual h fun _ hmoved visit _ => hmoved.moveActual visit
  exact hmoved

theorem call (call : WatchCall Path) : (state.call call).IsBalanced := by
  cases call with
  | addSubscriber => exact h.addSubscriber
  | registerPath registration => exact h.registerPath registration
  | unregisterPath subscriberId key => exact h.unregisterPath subscriberId key
  | removeSubscriber subscriberId => exact h.removeSubscriber subscriberId
  | notifySubscribers visits => exact h.notifySubscribers visits

end WatchState.IsBalanced

/-- The counts of every path are the sums over the watches at it. -/
theorem ref_counts_match_registrations (calls : List (WatchCall Path)) :
    (∀ path, ((WatchState.run calls).pathRefCounts.entries path).getD ⟨0, 0⟩ =
      ⟨(WatchState.run calls).registered ⟨path, false⟩,
        (WatchState.run calls).registered ⟨path, true⟩⟩) ∧
      (WatchState.run calls).pathRefCounts.belowZero = false ∧
      ((∀ entry ∈ (WatchState.run calls).subscribers.entries, entry.2.entries = []) →
        ∀ path, (WatchState.run calls).pathRefCounts.entries path = none) := by
  have hrun : (WatchState.run calls).IsBalanced :=
    foldlRecOn calls WatchState.call rfl fun _ h call _ => h.call call
  rw [hrun]
  refine ⟨fun path => ?_, rfl, fun hnone path => ?_⟩
  · grind [PathRefCounts.of, PathWatchCounts.isEmpty]
  · have hzero : (WatchState.run calls).registered = 0 := by
      apply sum_eq_zero
      intro counts hcounts
      obtain ⟨entry, hentry, rfl⟩ := mem_map.mp hcounts
      rw [WatchedPaths.registered, Dict.total, hnone entry hentry]
      rfl
    rw [hzero]
    rfl

end Rexux.FileWatcher
