import Mathlib.Tactic.Common

/-!
# Journals of writes

A store maps keys to values.  A journal is a list of writes, each of which
records the value it found and the value it left.  When every write found what
it recorded, replaying the journal and then undoing it from the last write to
the first gives the store back.
-/

namespace Foundation

variable {κ α : Type*} [DecidableEq κ]

/-- A write of one place, with what was there before. -/
structure StoreWrite (κ α : Type*) where
  key : κ
  before : α
  after : α

variable {store : κ → α}

namespace StoreWrite

def apply (write : StoreWrite κ α) (store : κ → α) : κ → α :=
  Function.update store write.key write.after

def revert (write : StoreWrite κ α) (store : κ → α) : κ → α :=
  Function.update store write.key write.before

theorem revert_apply {write : StoreWrite κ α}
    (hbefore : store write.key = write.before) : write.revert (write.apply store) = store := by
  unfold revert apply
  rw [Function.update_idem, ← hbefore, Function.update_eq_self]

end StoreWrite

/-- The writes in their order. -/
def replayWrites (writes : List (StoreWrite κ α)) (store : κ → α) : κ → α :=
  writes.foldl (fun store write => write.apply store) store

/-- The writes taken back, the last one first. -/
def undoWrites (writes : List (StoreWrite κ α)) (store : κ → α) : κ → α :=
  writes.foldr (fun write store => write.revert store) store

/-- Every write has recorded what was there. -/
def Recorded (store : κ → α) : List (StoreWrite κ α) → Prop
  | [] => True
  | write :: writes => store write.key = write.before ∧ Recorded (write.apply store) writes

@[simp] theorem replayWrites_nil (store : κ → α) : replayWrites [] store = store := rfl

theorem replayWrites_append (first second : List (StoreWrite κ α)) (store : κ → α) :
    replayWrites (first ++ second) store = replayWrites second (replayWrites first store) :=
  List.foldl_append

/-- A key holds what the last write to it left, and what it held before if
there is none. -/
theorem replayWrites_apply (writes : List (StoreWrite κ α)) (key : κ) :
    (∃ write ∈ writes, write.key = key ∧ ∀ store, replayWrites writes store key = write.after) ∨
      ((∀ write ∈ writes, write.key ≠ key) ∧
        ∀ store, replayWrites writes store key = store key) := by
  induction writes with
  | nil => exact .inr ⟨by simp, fun _ => rfl⟩
  | cons write writes ih =>
    rcases ih with ⟨later, hmem, hkey, hafter⟩ | ⟨hkeys, hsame⟩
    · exact .inl ⟨later, List.mem_cons_of_mem _ hmem, hkey, fun store => hafter _⟩
    · by_cases hkey : write.key = key
      · refine .inl ⟨write, List.mem_cons_self, hkey, ?_⟩
        intro store
        refine (hsame _).trans ?_
        rw [← hkey]
        exact Function.update_self ..
      · refine .inr ⟨List.forall_mem_cons.mpr ⟨hkey, hkeys⟩, ?_⟩
        intro store
        exact (hsame _).trans (Function.update_of_ne (Ne.symm hkey) ..)

theorem recorded_append {first second : List (StoreWrite κ α)} :
    Recorded store (first ++ second) ↔
      Recorded store first ∧ Recorded (replayWrites first store) second := by
  induction first generalizing store with
  | nil => simp [Recorded]
  | cons write first ih =>
    rw [List.cons_append, Recorded, Recorded, ih, and_assoc]
    rfl

/-- A key that was written is undone to what the first write to it found. -/
theorem exists_undoWrites_eq {writes : List (StoreWrite κ α)} {write : StoreWrite κ α}
    (hwrite : write ∈ writes) (store : κ → α) :
    ∃ first ∈ writes, undoWrites writes store write.key = first.before := by
  induction writes with
  | nil => cases hwrite
  | cons first writes ih =>
    by_cases hkey : write.key = first.key
    · refine ⟨first, List.mem_cons_self, ?_⟩
      rw [hkey]
      exact Function.update_self ..
    · have hlater : write ∈ writes :=
        (List.mem_cons.mp hwrite).resolve_left fun heq => hkey (congrArg StoreWrite.key heq)
      obtain ⟨found, hfound, hundone⟩ := ih hlater
      refine ⟨found, List.mem_cons_of_mem _ hfound, ?_⟩
      rw [← hundone]
      exact Function.update_of_ne hkey ..

/-- Undoing recorded writes gives the store back. -/
theorem undoWrites_replayWrites {writes : List (StoreWrite κ α)}
    (hrecorded : Recorded store writes) :
    undoWrites writes (replayWrites writes store) = store := by
  induction writes generalizing store with
  | nil => rfl
  | cons write writes ih =>
    obtain ⟨hbefore, hrest⟩ := hrecorded
    change write.revert (undoWrites writes (replayWrites writes (write.apply store))) = store
    rw [ih hrest, StoreWrite.revert_apply hbefore]

end Foundation
