import Mathlib.Data.List.DropRight
import Rexux.Foundation.Runs

/-!
# Logs that take back

A log of things done in which an entry takes back the last few that still stand.  Read
forwards it keeps a stack; read backwards it carries the number of things still to be
skipped.  The two readings agree.
-/

namespace Foundation

open List

section RightDrop

variable {α β : Type*}

theorem length_rdrop (items : List α) (count : ℕ) :
    (items.rdrop count).length = items.length - count := by
  rw [rdrop, length_take]
  omega

theorem rdrop_eq_nil_iff {items : List α} {count : ℕ} :
    items.rdrop count = [] ↔ items.length ≤ count := by
  rw [← length_eq_zero_iff, length_rdrop, Nat.sub_eq_zero_iff_le]

theorem rdrop_append (left right : List α) (count : ℕ) :
    (left ++ right).rdrop count = left.rdrop (count - right.length) ++ right.rdrop count := by
  rw [rdrop, rdrop, length_append, take_append]
  congr 1
  · rcases Nat.le_total count right.length with hle | hge
    · rw [take_of_length_le (by omega), take_of_length_le (by omega)]
    · congr 1
      omega
  · congr 1
    omega

theorem rdrop_append_rtake (items : List α) (count : ℕ) :
    items.rdrop count ++ items.rtake count = items :=
  take_append_drop _ _

theorem map_rdrop (f : α → β) (items : List α) (count : ℕ) :
    (items.rdrop count).map f = (items.map f).rdrop count := by
  rw [rdrop, rdrop, map_take, length_map]

end RightDrop

/-- Something is done, or the last `count` things that stand are undone. -/
inductive UndoEntry (α : Type*)
  | done (thing : α)
  | undone (count : ℕ)
  deriving DecidableEq, Repr

open UndoEntry

def UndoEntry.map {α β : Type*} (f : α → β) : UndoEntry α → UndoEntry β
  | .done thing => .done (f thing)
  | .undone count => .undone count

def UndoEntry.thing? {α : Type*} : UndoEntry α → Option α
  | .done thing => some thing
  | .undone _ => none

namespace UndoLog

section Live

variable {α β : Type*}

def step (live : List α) : UndoEntry α → List α
  | .done thing => live ++ [thing]
  | .undone count => live.rdrop count

/-- What stands after the entries. -/
def live (entries : List (UndoEntry α)) : List α := entries.foldl step []

/-- All that was done, undone or not. -/
def things (entries : List (UndoEntry α)) : List α := entries.filterMap thing?

@[simp] theorem live_nil : live ([] : List (UndoEntry α)) = [] := rfl

theorem live_concat (entries : List (UndoEntry α)) (entry : UndoEntry α) :
    live (entries ++ [entry]) = step (live entries) entry := by
  rw [live, foldl_append]
  rfl

theorem things_append (before after : List (UndoEntry α)) :
    things (before ++ after) = things before ++ things after :=
  filterMap_append

theorem mem_things_of_mem_live {entries : List (UndoEntry α)} {thing : α}
    (h : thing ∈ live entries) : thing ∈ things entries := by
  induction entries using reverseRecOn with
  | nil => cases h
  | append_singleton entries entry ih =>
    rw [live_concat] at h
    rw [things_append]
    cases entry with
    | done last =>
      rcases mem_append.mp h with hold | hlast
      · exact mem_append_left _ (ih hold)
      · exact mem_append_right _ hlast
    | undone count => exact mem_append_left _ (ih (mem_of_mem_take h))

theorem live_map (f : α → β) (entries : List (UndoEntry α)) :
    live (entries.map (map f)) = (live entries).map f := by
  induction entries using reverseRecOn with
  | nil => rfl
  | append_singleton entries entry ih =>
    rw [map_append, map_singleton, live_concat, live_concat, ih]
    cases entry with
    | done thing =>
      change (live entries).map f ++ [thing].map f = ((live entries) ++ [thing]).map f
      rw [map_append]
    | undone count => exact (map_rdrop f _ _).symm

theorem things_map (f : α → β) (entries : List (UndoEntry α)) :
    things (entries.map (map f)) = (things entries).map f := by
  induction entries with
  | nil => rfl
  | cons entry entries ih =>
    cases entry with
    | done thing => exact congrArg (f thing :: ·) ih
    | undone count => exact ih

end Live

section Backwards

variable {α : Type*}

/-- How many older things the entries, newest first, still take back when `pending` are
owed by what came after them. -/
def owed : List (UndoEntry α) → ℕ → ℕ
  | [], pending => pending
  | .done _ :: older, pending => owed older (pending - 1)
  | .undone count :: older, pending => owed older (pending + count)

theorem owed_append (newer older : List (UndoEntry α)) (pending : ℕ) :
    owed (newer ++ older) pending = owed older (owed newer pending) := by
  induction newer generalizing pending with
  | nil => rfl
  | cons entry newer ih =>
    cases entry with
    | done | undone => exact ih _

theorem owed_eq (entries : List (UndoEntry α)) (pending : ℕ) :
    owed entries pending = (pending - (live entries.reverse).length) + owed entries 0 := by
  induction entries generalizing pending with
  | nil => simp [owed]
  | cons entry entries ih =>
    rw [reverse_cons, live_concat]
    cases entry with
    | done thing =>
      rw [owed, owed, ih (pending - 1), Nat.zero_sub, step, length_append, length_singleton]
      omega
    | undone count =>
      rw [owed, owed, ih (pending + count), ih (0 + count), step, length_rdrop]
      omega

theorem owed_done (things : List α) (pending : ℕ) :
    owed (things.map done) pending = pending - things.length := by
  induction things generalizing pending with
  | nil => rfl
  | cons thing things ih =>
    rw [map_cons, owed, ih, length_cons]
    omega

theorem foldl_step_eq (start : List α) (after : List (UndoEntry α)) :
    after.foldl step start = start.rdrop (owed after.reverse 0) ++ live after := by
  induction after using reverseRecOn with
  | nil => simp [owed]
  | append_singleton after entry ih =>
    rw [foldl_append, ih, live_concat, reverse_append, foldl_cons, foldl_nil]
    cases entry with
    | done thing => exact append_assoc _ _ _
    | undone count =>
      rw [reverse_singleton, singleton_append, owed, Nat.zero_add, owed_eq after.reverse count,
        reverse_reverse, step, step, rdrop_append, rdrop_add, Nat.add_comm]

theorem live_append (before after : List (UndoEntry α)) :
    live (before ++ after) = (live before).rdrop (owed after.reverse 0) ++ live after := by
  rw [live, foldl_append]
  exact foldl_step_eq (live before) after

end Backwards

section Expand

variable {α β : Type*} (f : α → List β)

def expandEntry : UndoEntry α → List (UndoEntry β)
  | .done thing => (f thing).map .done
  | .undone count => [.undone count]

/-- A log of wholes as a log of their parts, with the same counts of undos. -/
def expand (entries : List (UndoEntry α)) : List (UndoEntry β) := entries.flatMap (expandEntry f)

/-- Whenever things are taken back, they have as many parts as are taken back, or all
the parts there are. -/
def UndoesWhole (entries : List (UndoEntry α)) : Prop :=
  ∀ before count, before ++ [.undone count] <+: entries →
    (((live before).rtake count).flatMap f).length = min count ((live before).flatMap f).length

theorem foldl_step_done (live : List β) (parts : List β) :
    (parts.map done).foldl step live = live ++ parts := by
  induction parts generalizing live with
  | nil => exact (append_nil live).symm
  | cons part parts ih =>
    rw [map_cons, foldl_cons, ih, step, append_assoc]
    rfl

variable (entries : List (UndoEntry α))

theorem live_expand_concat_done (thing : α) :
    live (expand f (entries ++ [.done thing])) = live (expand f entries) ++ f thing := by
  rw [expand, flatMap_append, flatMap_singleton, live, foldl_append, expandEntry, foldl_step_done]
  rfl

theorem live_expand_concat_undone (count : ℕ) :
    live (expand f (entries ++ [.undone count])) = (live (expand f entries)).rdrop count := by
  rw [expand, flatMap_append, flatMap_singleton, expandEntry, live_concat]
  rfl

/-- Dropping `count` parts is the same as dropping `count` wholes exactly if these wholes have
as many parts. -/
theorem rdrop_flatMap_iff (things : List α) (count : ℕ) :
    (things.flatMap f).rdrop count = (things.rdrop count).flatMap f ↔
      ((things.rtake count).flatMap f).length = min count (things.flatMap f).length := by
  have hsplit : things.flatMap f =
      (things.rdrop count).flatMap f ++ (things.rtake count).flatMap f := by
    rw [← flatMap_append, rdrop_append_rtake]
  have hlength := congrArg length hsplit
  rw [length_append] at hlength
  constructor
  · intro hdrop
    have hkept := congrArg length hdrop
    rw [length_rdrop] at hkept
    omega
  · intro hcount
    rw [rdrop, hsplit, take_append_of_le_length, take_of_length_le]
    · rw [← hsplit]
      omega
    · rw [← hsplit]
      omega

/-- One undo more keeps the logs of wholes and of parts in step exactly if it undoes as many
parts. -/
theorem live_expand_concat_iff {f : α → List β} {entries : List (UndoEntry α)}
    (h : live (expand f entries) = (live entries).flatMap f) (entry : UndoEntry α) :
    live (expand f (entries ++ [entry])) = (live (entries ++ [entry])).flatMap f ↔
      ∀ count, entry = .undone count → (((live entries).rtake count).flatMap f).length =
        min count ((live entries).flatMap f).length := by
  cases entry with
  | done thing =>
    rw [live_expand_concat_done, live_concat, h, step, flatMap_append, flatMap_singleton]
    exact iff_of_true rfl (by simp)
  | undone count =>
    rw [live_expand_concat_undone, live_concat, h, step, rdrop_flatMap_iff]
    simp

theorem live_expand_iff :
    (∀ before, before <+: entries → live (expand f before) = (live before).flatMap f) ↔
      UndoesWhole f entries := by
  have hsteps := forall_prefix_iff
    (P := fun before => live (expand f before) = (live before).flatMap f) rfl
    (fun before entry h => live_expand_concat_iff h entry) entries
  rw [hsteps]
  constructor
  · exact fun h before count hbegin => h before _ hbegin count rfl
  · rintro h before _ hbegin count rfl
    exact h before count hbegin

/-- The undos are whole since a moment at which nothing stands. -/
def UndoesWholeSince : Prop :=
  ∃ older newer, entries = older ++ newer ∧ (live older).flatMap f = [] ∧
    ∀ before count, before ++ [.undone count] <+: newer →
      (((live (older ++ before)).rtake count).flatMap f).length =
        min count ((live (older ++ before)).flatMap f).length

variable {f}

section AtMostOne

theorem length_flatMap_rtake_le {things : List α} (hf : ∀ thing ∈ things, (f thing).length ≤ 1)
    (count : ℕ) : ((things.rtake count).flatMap f).length ≤ count := by
  have hparts : ∀ taken : List α, taken ⊆ things → (taken.flatMap f).length ≤ taken.length := by
    intro taken htaken
    induction taken with
    | nil => exact Nat.le_refl 0
    | cons thing taken ih =>
      rw [cons_subset] at htaken
      rw [flatMap_cons, length_append, length_cons]
      have hthing := hf thing htaken.1
      have hrest := ih htaken.2
      omega
  have hlength := hparts (things.rtake count) (drop_subset _ _)
  rw [rtake, length_drop] at hlength
  rw [rtake]
  omega

variable {entries} (hf : ∀ thing ∈ things entries, (f thing).length ≤ 1)
include hf

/-- Counted in parts, an undo never takes back less. -/
theorem live_expand_sublist : live (expand f entries) <+ (live entries).flatMap f := by
  induction entries using reverseRecOn with
  | nil => exact .refl []
  | append_singleton entries entry ih =>
    rw [things_append, forall_mem_append] at hf
    replace ih := ih hf.1
    cases entry with
    | done thing =>
      rw [live_expand_concat_done, live_concat, step, flatMap_append, flatMap_singleton]
      exact ih.append (.refl _)
    | undone count =>
      rw [← rdrop_append_rtake (live entries) count, flatMap_append, sublist_append_iff] at ih
      obtain ⟨kept, taken, hsplit, hkept, htaken⟩ := ih
      have hlength := htaken.length_le.trans (length_flatMap_rtake_le
        (fun thing hthing => hf.1 thing (mem_things_of_mem_live hthing)) count)
      rw [live_expand_concat_undone, live_concat, hsplit, rdrop_append]
      have hgone : taken.rdrop count = [] := rdrop_eq_nil_iff.mpr (by omega)
      rw [hgone, append_nil]
      exact (take_sublist _ _).trans hkept

/-- While a part is left, the two cannot come to agree by an undo. -/
theorem live_expand_eq_of_concat {entry : UndoEntry α}
    (h : live (expand f (entries ++ [entry])) = (live (entries ++ [entry])).flatMap f)
    (hne : (live (entries ++ [entry])).flatMap f ≠ []) :
    live (expand f entries) = (live entries).flatMap f := by
  cases entry with
  | done thing =>
    rw [live_expand_concat_done, live_concat, step, flatMap_append, flatMap_singleton] at h
    exact append_cancel_right h
  | undone count =>
    rw [live_expand_concat_undone, live_concat, step] at h
    rw [live_concat, step] at hne
    -- As many parts are left, so at least as many stood, and no more can have.
    have hparts := congrArg (fun things => (things.flatMap f).length)
      (rdrop_append_rtake (live entries) count)
    have hleft := congrArg length h
    have hsublist := live_expand_sublist hf
    have htaken := length_flatMap_rtake_le
      (fun thing hthing => hf thing (mem_things_of_mem_live hthing)) count
    have hle := hsublist.length_le
    have hsome := length_pos_of_ne_nil hne
    simp only [flatMap_append, length_append] at hparts
    rw [length_rdrop] at hleft
    exact hsublist.eq_of_length (by omega)

/-- Things of at most one part are counted as parts and as wholes alike, exactly if since a
moment at which nothing stands every undo was whole. -/
theorem live_expand_eq_iff :
    live (expand f entries) = (live entries).flatMap f ↔ UndoesWholeSince f entries := by
  constructor
  · intro h
    induction entries using reverseRecOn with
    | nil => exact ⟨[], [], rfl, rfl, by simp⟩
    | append_singleton entries entry ih =>
      rw [things_append, forall_mem_append] at hf
      by_cases hnone : (live (entries ++ [entry])).flatMap f = []
      · exact ⟨entries ++ [entry], [], (append_nil _).symm, hnone, by simp⟩
      have hbefore := live_expand_eq_of_concat hf.1 h hnone
      obtain ⟨older, newer, rfl, holder, hwhole⟩ := ih hf.1 hbefore
      refine ⟨older, newer ++ [entry], append_assoc _ _ _, holder, fun before count hbegin => ?_⟩
      rcases prefix_concat_iff.mp hbegin with hlast | hbegin
      · obtain ⟨rfl, hentry⟩ := append_inj' hlast rfl
        cases hentry
        exact (live_expand_concat_iff hbefore _).mp h count rfl
      · exact hwhole before count hbegin
  · rintro ⟨older, newer, rfl, holder, hwhole⟩
    induction newer using reverseRecOn with
    | nil =>
      rw [append_nil] at hf
      have hsublist := live_expand_sublist hf
      rw [holder] at hsublist
      rw [append_nil, holder]
      exact sublist_nil.mp hsublist
    | append_singleton newer entry ih =>
      rw [← append_assoc, things_append, forall_mem_append] at hf
      have hbefore := ih hf.1 fun before count hbegin =>
        hwhole before count (hbegin.trans (prefix_append newer _))
      rw [← append_assoc]
      apply (live_expand_concat_iff hbefore entry).mpr
      rintro count rfl
      exact hwhole newer count (prefix_refl _)

end AtMostOne

end Expand

end UndoLog

end Foundation
