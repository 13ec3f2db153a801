import Mathlib.Data.Finset.Card

/-!
# A set that remembers its most recent members

A bounded memory of identifiers: a set for the lookup and a queue that says which
member to forget first.  The queue is the end of the history of what was remembered,
so a member is forgotten only after as many others as the memory has room for.
-/

namespace Foundation

open List

variable {α : Type*} [DecidableEq α]

/-- The latest members, with the order in which they came. -/
structure RecentSet (α : Type*) [DecidableEq α] (capacity : ℕ) where
  ids : Finset α
  order : List α
  nodup : order.Nodup
  ids_eq : ids = order.toFinset

namespace RecentSet

variable {capacity : ℕ}

def empty : RecentSet α capacity := ⟨∅, [], nodup_nil, rfl⟩

def contains (recent : RecentSet α capacity) (id : α) : Bool := id ∈ recent.ids

/-- Drop the oldest members until the capacity is met. -/
def evict (capacity : ℕ) : Finset α → List α → Finset α × List α
  | ids, [] => (ids, [])
  | ids, oldest :: order =>
    if capacity < (oldest :: order).length then evict capacity (ids.erase oldest) order
    else (ids, oldest :: order)

theorem evict_snd (ids : Finset α) (order : List α) :
    (evict capacity ids order).2 = order.drop (order.length - capacity) := by
  induction order generalizing ids with
  | nil => exact drop_nil.symm
  | cons oldest order ih =>
    unfold evict
    split
    next hfull =>
      rw [length_cons] at hfull ⊢
      rw [ih, show order.length + 1 - capacity = order.length - capacity + 1 by omega,
        drop_succ_cons]
    next hfits =>
      rw [Nat.sub_eq_zero_of_le (not_lt.mp hfits), drop_zero]

theorem evict_fst {ids : Finset α} {order : List α} (hnodup : order.Nodup)
    (hids : ids = order.toFinset) :
    (evict capacity ids order).1 = (evict capacity ids order).2.toFinset := by
  induction order generalizing ids with
  | nil => exact hids
  | cons oldest order ih =>
    rw [nodup_cons] at hnodup
    unfold evict
    split
    · refine ih hnodup.2 ?_
      rw [hids, toFinset_cons, Finset.erase_insert]
      rw [mem_toFinset]
      exact hnodup.1
    · exact hids

/-- Add a member; an old one keeps its place. -/
def remember (recent : RecentSet α capacity) (id : α) : RecentSet α capacity :=
  if h : id ∈ recent.ids then recent
  else
    have hnodup : (recent.order ++ [id]).Nodup := by
      rw [recent.ids_eq, mem_toFinset] at h
      exact nodup_append.mpr ⟨recent.nodup, nodup_singleton id,
        fun a ha b hb hab => h (mem_singleton.mp hb ▸ hab ▸ ha)⟩
    { ids := (evict capacity (insert id recent.ids) (recent.order ++ [id])).1
      order := (evict capacity (insert id recent.ids) (recent.order ++ [id])).2
      nodup := by
        rw [evict_snd]
        exact hnodup.sublist (drop_sublist _ _)
      ids_eq := by
        refine evict_fst hnodup ?_
        rw [recent.ids_eq, toFinset_append, toFinset_cons, toFinset_nil,
          insert_empty_eq, Finset.union_comm]
        rfl }

variable {id : α} {recent : RecentSet α capacity}

theorem contains_iff : recent.contains id ↔ id ∈ recent.order := by
  rw [contains, decide_eq_true_iff, recent.ids_eq, mem_toFinset]

theorem contains_eq_false_iff : recent.contains id = false ↔ id ∉ recent.order := by
  rw [← contains_iff, Bool.not_eq_true]

/-- The queue is the end of this history. -/
def Remembers (recent : RecentSet α capacity) (history : List α) : Prop :=
  recent.order = history.drop (history.length - capacity)

theorem remembers_empty : (empty : RecentSet α capacity).Remembers [] := drop_nil.symm

/-- Adding a new member keeps the record of the latest ones. -/
theorem Remembers.remember {history : List α}
    (hrecent : recent.Remembers history) (hnew : recent.contains id = false) :
    (recent.remember id).Remembers (history ++ [id]) := by
  have hids : id ∉ recent.ids := by
    simpa [contains] using hnew
  unfold Remembers at hrecent ⊢
  rw [RecentSet.remember, dif_neg hids]
  dsimp only
  rw [evict_snd, hrecent, ← drop_append_of_le_length (Nat.sub_le _ _), drop_drop]
  congr 1
  rw [length_drop, length_append]
  omega

/-- A member is forgotten only after as many others as the capacity. -/
theorem Remembers.capacity_le_card {before between : List α}
    (hrecent : recent.Remembers (before ++ id :: between))
    (hforgotten : recent.contains id = false) : capacity ≤ (between.toFinset.erase id).card := by
  rw [contains_eq_false_iff] at hforgotten
  have hlength : capacity ≤ between.length := by
    by_contra hshort
    apply hforgotten
    rw [hrecent, drop_append_of_le_length (by
      rw [length_append, length_cons]
      omega)]
    exact mem_append_right _ mem_cons_self
  have horder : recent.order = between.drop (between.length - capacity) := by
    rw [hrecent, ← singleton_append, ← append_assoc, drop_append, drop_eq_nil_of_le (by
        rw [length_append, length_append, length_append]
        omega), nil_append]
    congr 1
    rw [length_append]
    omega
  calc
    capacity = recent.order.length := by
      rw [horder, length_drop]
      omega
    _ = recent.order.toFinset.card := (toFinset_card_of_nodup recent.nodup).symm
    _ ≤ (between.toFinset.erase id).card := by
      refine Finset.card_le_card fun other hother => ?_
      rw [mem_toFinset] at hother
      rw [Finset.mem_erase, mem_toFinset]
      refine ⟨fun heq => hforgotten (heq ▸ hother), ?_⟩
      rw [horder] at hother
      exact mem_of_mem_drop hother

end RecentSet

end Foundation
