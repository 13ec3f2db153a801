import Mathlib.Algebra.BigOperators.Group.List.Basic
import Mathlib.Data.List.Dedup

/-!
# Dictionaries

A finite map over keys that need no order, as a list of entries with distinct keys.
The order of the entries is that of the last insertions and stands for the arbitrary
order in which a hash map is walked.
-/

namespace Foundation

open List

/-- A finite map, in the order of its insertions. -/
structure Dict (K V : Type*) [DecidableEq K] where
  entries : List (K × V)
  nodup : (entries.map Prod.fst).Nodup

namespace Dict

variable {K V : Type*} [DecidableEq K]

def empty : Dict K V := ⟨[], nodup_nil⟩

def get? (dict : Dict K V) (key : K) : Option V := (dict.entries.find? (·.1 = key)).map Prod.snd

def erase (dict : Dict K V) (key : K) : Dict K V where
  entries := dict.entries.filter (·.1 ≠ key)
  nodup := dict.nodup.sublist (filter_sublist.map Prod.fst)

/-- The key becomes the latest entry. -/
def insert (dict : Dict K V) (key : K) (value : V) : Dict K V where
  entries := (dict.erase key).entries ++ [(key, value)]
  nodup := by
    rw [map_append, nodup_append]
    refine ⟨(dict.erase key).nodup, nodup_singleton key, ?_⟩
    intro other hother found hfound heq
    obtain ⟨entry, hentry, rfl⟩ := mem_map.mp hother
    have hne := of_decide_eq_true (mem_filter.mp hentry).2
    exact hne (heq.trans (mem_singleton.mp hfound))

/-- Keep the entries of some keys. -/
def retain (dict : Dict K V) (kept : K → Bool) : Dict K V where
  entries := dict.entries.filter (kept ·.1)
  nodup := dict.nodup.sublist (filter_sublist.map Prod.fst)

def size (dict : Dict K V) : ℕ := dict.entries.length

variable {dict : Dict K V} {key other : K} {value : V}

theorem get?_eq_some_iff : dict.get? key = some value ↔ (key, value) ∈ dict.entries := by
  constructor
  · intro h
    obtain ⟨entry, hfind, rfl⟩ := Option.map_eq_some_iff.mp h
    have hkey := find?_some hfind
    rw [← of_decide_eq_true hkey]
    exact mem_of_find?_eq_some hfind
  · intro hmem
    obtain ⟨entry, hfind⟩ := Option.isSome_iff_exists.mp
      (find?_isSome (p := fun entry => decide (entry.1 = key)) |>.mpr ⟨_, hmem, decide_eq_true rfl⟩)
    have hkey := find?_some hfind
    have hsame := inj_on_of_nodup_map dict.nodup (mem_of_find?_eq_some hfind) hmem
      (of_decide_eq_true hkey)
    rw [get?, hfind, hsame, Option.map_some]

theorem get?_erase :
    (dict.erase key).get? other = if other = key then none else dict.get? other := by
  ext found
  rw [get?_eq_some_iff, erase]
  split
  next heq => simp [heq]
  next hne => simp [get?_eq_some_iff, hne]

theorem get?_of_get?_erase (h : (dict.erase key).get? other = some value) :
    dict.get? other = some value := by
  rw [get?_erase] at h
  split_ifs at h
  exact h

theorem get?_insert :
    (dict.insert key value).get? other = if other = key then some value else dict.get? other := by
  ext found
  rw [get?_eq_some_iff, insert, mem_append, ← get?_eq_some_iff, get?_erase]
  split
  next heq => simp [heq, eq_comm]
  next hne => simp [hne]

theorem size_erase_le (dict : Dict K V) (key : K) : (dict.erase key).size ≤ dict.size :=
  length_filter_le _ _

theorem size_erase_lt (h : dict.get? key = some value) : (dict.erase key).size < dict.size := by
  refine length_filter_lt_length_iff_exists.mpr ⟨(key, value), get?_eq_some_iff.mp h, ?_⟩
  simp

theorem size_insert (dict : Dict K V) (key : K) (value : V) :
    (dict.insert key value).size = (dict.erase key).size + 1 := by
  simp [size, insert]

variable {M : Type*} [AddCommMonoid M] (weight : V → M) (dict : Dict K V)

/-- The weights of all values, added up. -/
def total : M := (dict.entries.map (weight ·.2)).sum

theorem total_insert (key : K) (value : V) :
    (dict.insert key value).total weight = (dict.erase key).total weight + weight value := by
  simp [total, insert]

theorem total_eq_erase (key : K) :
    dict.total weight = (dict.erase key).total weight + (dict.get? key).elim 0 weight := by
  obtain ⟨entries, hnodup⟩ := dict
  simp only [total, erase, get?]
  induction entries with
  | nil => simp
  | cons entry entries ih =>
    rw [map_cons, nodup_cons] at hnodup
    by_cases hkey : entry.1 = key
    · have hrest : ∀ other ∈ entries, other.1 ≠ key := by
        rintro other hother rfl
        exact hnodup.1 (hkey ▸ mem_map_of_mem hother)
      rw [filter_cons_of_neg (by simp [hkey]), filter_eq_self.mpr (by simpa using hrest)]
      simp [hkey, add_comm]
    · rw [map_cons, sum_cons, ih hnodup.2]
      simp [hkey, add_assoc]

end Dict

end Foundation
