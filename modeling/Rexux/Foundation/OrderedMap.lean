import Mathlib.Algebra.Ring.Nat
import Mathlib.Order.Interval.Finset.Nat
import Rexux.Foundation.KeyedList

/-!
# Maps ordered by number

A finite map from numbers to values, as a list of entries in increasing order.
Everything is said through `get?`; the order of the entries matters only for
walks from the smallest key on, and for counting the keys of an interval.
-/

namespace Foundation

open List

/-- A map from numbers, ordered by its keys. -/
structure OrderedMap (V : Type*) where
  entries : List (ℕ × V)
  sorted : entries.Pairwise fun entry other => entry.1 < other.1

namespace OrderedMap

variable {V : Type*}

def empty : OrderedMap V := ⟨[], List.Pairwise.nil⟩

def get? (map : OrderedMap V) (key : ℕ) : Option V := (map.entries.find? (·.1 = key)).map Prod.snd

def size (map : OrderedMap V) : ℕ := map.entries.length

def insert (map : OrderedMap V) (key : ℕ) (value : V) : OrderedMap V where
  entries := map.entries.filter (·.1 < key) ++ (key, value) :: map.entries.filter (key < ·.1)
  sorted := Keyed.Sorted.insert map.sorted key value

def erase (map : OrderedMap V) (key : ℕ) : OrderedMap V where
  entries := map.entries.filter (·.1 ≠ key)
  sorted := map.sorted.filter _

/-- The keys of a range, both ends included. -/
def keysIn (map : OrderedMap V) (low high : ℕ) : List ℕ :=
  (map.entries.filter fun entry => low ≤ entry.1 && entry.1 ≤ high).map Prod.fst

def countIn (map : OrderedMap V) (low high : ℕ) : ℕ := (map.keysIn low high).length

def modifyFirstEntry (condition : ℕ × V → Bool) (change : V → V) : List (ℕ × V) → List (ℕ × V)
  | [] => []
  | entry :: entries =>
    if condition entry then (entry.1, change entry.2) :: entries
    else entry :: modifyFirstEntry condition change entries

theorem keys_modifyFirstEntry (condition : ℕ × V → Bool) (change : V → V) (entries : List (ℕ × V)) :
    (modifyFirstEntry condition change entries).map Prod.fst = entries.map Prod.fst := by
  induction entries with
  | nil => rfl
  | cons entry entries ih =>
    unfold modifyFirstEntry
    split
    · rfl
    · rw [map_cons, ih, map_cons]

/-- Change the first value whose entry satisfies a condition. -/
def modifyFirst (map : OrderedMap V) (condition : ℕ × V → Bool) (change : V → V) :
    OrderedMap V where
  entries := modifyFirstEntry condition change map.entries
  sorted := by
    rw [← pairwise_map, keys_modifyFirstEntry, pairwise_map]
    exact map.sorted

variable {map : OrderedMap V} {key other low high : ℕ} {value : V}

theorem get?_eq_some_iff : map.get? key = some value ↔ (key, value) ∈ map.entries :=
  Keyed.Sorted.get?_eq_some_iff map.sorted

@[simp] theorem get?_empty : (empty : OrderedMap V).get? key = none := rfl

theorem get?_insert :
    (map.insert key value).get? other = if other = key then some value else map.get? other :=
  Keyed.get?_insert

theorem get?_erase : (map.erase key).get? other = if other = key then none else map.get? other :=
  Keyed.get?_erase

theorem size_erase_lt (h : map.get? key = some value) : (map.erase key).size < map.size := by
  refine length_filter_lt_length_iff_exists.mpr ⟨(key, value), get?_eq_some_iff.mp h, ?_⟩
  simp

/-- The weights of all values, added up. -/
def total (weight : V → ℕ) (map : OrderedMap V) : ℕ :=
  (map.entries.map fun entry => weight entry.2).sum

theorem nodup_entries (map : OrderedMap V) : map.entries.Nodup := Keyed.Sorted.nodup map.sorted

theorem total_eq_add {rest : OrderedMap V} {weight : V → ℕ} (hget : map.get? key = some value)
    (hnone : rest.get? key = none) (hrest : ∀ other ≠ key, rest.get? other = map.get? other) :
    map.total weight = weight value + rest.total weight := by
  have hfresh : (key, value) ∉ rest.entries := by
    intro hmem
    rw [← get?_eq_some_iff, hnone] at hmem
    cases hmem
  have hperm : map.entries.Perm ((key, value) :: rest.entries) := by
    refine (perm_ext_iff_of_nodup map.nodup_entries
      (nodup_cons.mpr ⟨hfresh, rest.nodup_entries⟩)).mpr ?_
    rintro ⟨other, found⟩
    rw [mem_cons, ← get?_eq_some_iff, ← get?_eq_some_iff]
    by_cases heq : other = key
    · subst heq
      simp [hget, hnone, eq_comm]
    · simp [heq, hrest other heq]
  exact (hperm.map fun entry => weight entry.2).sum_nat

theorem get?_modifyFirst {condition : ℕ × V → Bool} {change : V → V}
    (h : (map.modifyFirst condition change).get? key = some value) :
    map.get? key = some value ∨
      ∃ old, map.get? key = some old ∧ condition (key, old) ∧ value = change old := by
  simp only [get?_eq_some_iff, modifyFirst] at h ⊢
  obtain ⟨entries, sorted⟩ := map
  dsimp only at h ⊢
  clear sorted
  induction entries with
  | nil => exact .inl h
  | cons entry entries ih =>
    unfold modifyFirstEntry at h
    split at h
    next hcondition =>
      rcases mem_cons.mp h with heq | hmem
      · obtain ⟨rfl, rfl⟩ := Prod.mk.inj heq
        exact .inr ⟨entry.2, mem_cons_self, hcondition, rfl⟩
      · exact .inl (mem_cons_of_mem _ hmem)
    · rcases mem_cons.mp h with heq | hmem
      · exact .inl (heq ▸ mem_cons_self)
      · rcases ih hmem with hold | ⟨old, hold, hchange⟩
        · exact .inl (mem_cons_of_mem _ hold)
        · exact .inr ⟨old, mem_cons_of_mem _ hold, hchange⟩

theorem mem_keysIn : key ∈ map.keysIn low high ↔ low ≤ key ∧ key ≤ high ∧ map.get? key ≠ none := by
  simp only [keysIn, mem_map, mem_filter, Bool.and_eq_true, decide_eq_true_eq]
  constructor
  · rintro ⟨entry, ⟨hmem, hlow, hhigh⟩, rfl⟩
    refine ⟨hlow, hhigh, ?_⟩
    rw [get?_eq_some_iff.mpr hmem]
    exact Option.some_ne_none _
  · rintro ⟨hlow, hhigh, hsome⟩
    obtain ⟨value, hvalue⟩ := Option.ne_none_iff_exists'.mp hsome
    exact ⟨(key, value), ⟨get?_eq_some_iff.mp hvalue, hlow, hhigh⟩, rfl⟩

theorem sorted_keysIn (map : OrderedMap V) (low high : ℕ) :
    (map.keysIn low high).Pairwise (· < ·) :=
  pairwise_map.mpr (map.sorted.filter _)

/-- Present and missing keys of a range are at most its length. -/
theorem countIn_add_card_le (map : OrderedMap V) (low high : ℕ) (missing : Finset ℕ)
    (hmissing : ∀ key ∈ missing, low ≤ key ∧ key ≤ high ∧ map.get? key = none) :
    map.countIn low high + missing.card ≤ high + 1 - low := by
  have hnodup : (map.keysIn low high).Nodup := (map.sorted_keysIn low high).imp fun h => ne_of_lt h
  have hdisjoint : Disjoint (map.keysIn low high).toFinset missing := by
    rw [Finset.disjoint_left]
    intro key hkey hmem
    exact (mem_keysIn.mp (mem_toFinset.mp hkey)).2.2 (hmissing key hmem).2.2
  rw [countIn, ← toFinset_card_of_nodup hnodup,
    ← Finset.card_union_of_disjoint hdisjoint, ← Nat.card_Icc]
  refine Finset.card_le_card fun key hkey => ?_
  rw [Finset.mem_Icc]
  rcases Finset.mem_union.mp hkey with hkey | hkey
  · have hkey := mem_keysIn.mp (mem_toFinset.mp hkey)
    exact ⟨hkey.1, hkey.2.1⟩
  · exact ⟨(hmissing key hkey).1, (hmissing key hkey).2.1⟩

end OrderedMap

end Foundation
