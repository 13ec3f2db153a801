import Mathlib.Order.Lattice
import Mathlib.Tactic.Common

/-!
# Entry lists in the order of their keys

A map as the list of its entries, sorted by key.  Everything is said through `get?`: two
sorted lists with the same entries at every key are the same list.
-/

namespace Foundation

open List

namespace Keyed

variable {K V : Type*} [LinearOrder K]

def get? (entries : List (K × V)) (key : K) : Option V := (entries.find? (·.1 = key)).map Prod.snd

/-- Put the entry in its place; an entry of the same key is replaced. -/
def insert (entries : List (K × V)) (key : K) (value : V) : List (K × V) :=
  entries.filter (·.1 < key) ++ (key, value) :: entries.filter (key < ·.1)

def erase (entries : List (K × V)) (key : K) : List (K × V) := entries.filter (·.1 ≠ key)

/-- The keys increase. -/
def Sorted (entries : List (K × V)) : Prop := entries.Pairwise fun entry other => entry.1 < other.1

variable {entries : List (K × V)} {key other : K} {value : V}

@[simp] theorem get?_nil : get? ([] : List (K × V)) key = none := rfl

theorem get?_cons (entry : K × V) (entries : List (K × V)) (key : K) :
    get? (entry :: entries) key = if entry.1 = key then some entry.2 else get? entries key := by
  unfold get?
  by_cases hkey : entry.1 = key
  · simp [hkey]
  · simp [hkey]

theorem mem_of_get? (h : get? entries key = some value) : (key, value) ∈ entries := by
  obtain ⟨entry, hentry, rfl⟩ := Option.map_eq_some_iff.mp h
  have hkey := find?_some hentry
  rw [← of_decide_eq_true hkey]
  exact mem_of_find?_eq_some hentry

theorem Sorted.get?_eq_some_iff (hsorted : Sorted entries) :
    get? entries key = some value ↔ (key, value) ∈ entries := by
  refine ⟨mem_of_get?, ?_⟩
  induction entries with
  | nil => exact fun h => nomatch h
  | cons entry entries ih =>
    obtain ⟨hfirst, hrest⟩ := pairwise_cons.mp hsorted
    intro hmem
    rw [get?_cons]
    rcases mem_cons.mp hmem with rfl | hmem
    · exact if_pos rfl
    · rw [if_neg (ne_of_lt (hfirst _ hmem))]
      exact ih hrest hmem

theorem Sorted.insert (hsorted : Sorted entries) (key : K) (value : V) :
    Sorted (Keyed.insert entries key value) := by
  unfold Sorted Keyed.insert
  rw [pairwise_append, pairwise_cons]
  refine ⟨hsorted.filter _, ⟨?_, hsorted.filter _⟩, ?_⟩
  · intro entry hentry
    exact of_decide_eq_true (mem_filter.mp hentry).2
  · intro entry hentry later hlater
    have hlow : entry.1 < key := of_decide_eq_true (mem_filter.mp hentry).2
    rcases mem_cons.mp hlater with rfl | hlater
    · exact hlow
    · exact hlow.trans (of_decide_eq_true (mem_filter.mp hlater).2)

theorem Sorted.erase (hsorted : Sorted entries) (key : K) : Sorted (Keyed.erase entries key) :=
  hsorted.filter _

theorem mem_insert {entry : K × V} :
    entry ∈ insert entries key value → entry = (key, value) ∨ entry ∈ entries := by
  intro hentry
  rcases mem_append.mp hentry with hlow | hentry
  · exact .inr (mem_filter.mp hlow).1
  rcases mem_cons.mp hentry with rfl | hhigh
  · exact .inl rfl
  · exact .inr (mem_filter.mp hhigh).1

theorem get?_append (left right : List (K × V)) (key : K) :
    get? (left ++ right) key = (get? left key).or (get? right key) := by
  unfold get?
  rw [find?_append]
  cases left.find? (·.1 = key) with
  | none | some => rfl

theorem get?_filter (keep : K → Bool) (entries : List (K × V)) (key : K) :
    get? (entries.filter fun entry => keep entry.1) key =
      if keep key then get? entries key else none := by
  rw [get?, find?_filter]
  cases hkeep : keep key with
  | true =>
    rw [if_pos rfl, get?]
    congr 2
    funext entry
    grind
  | false =>
    rw [find?_eq_none.mpr (by grind)]
    rfl

theorem get?_map {W : Type*} (f : V → W) (entries : List (K × V)) (key : K) :
    get? (entries.map fun entry => (entry.1, f entry.2)) key = (get? entries key).map f := by
  rw [get?, get?, find?_map, Option.map_map, Option.map_map]
  rfl

theorem Sorted.map {W : Type*} (hsorted : Sorted entries) (f : K × V → W) :
    Sorted (entries.map fun entry => (entry.1, f entry)) :=
  pairwise_map.mpr hsorted

theorem get?_insert :
    get? (insert entries key value) other =
      if other = key then some value else get? entries other := by
  unfold insert
  rw [get?_append, get?_cons, get?_filter (fun candidate => decide (candidate < key)),
    get?_filter (fun candidate => decide (key < candidate))]
  rcases lt_trichotomy other key with hlt | rfl | hgt
  · simp [hlt, hlt.ne, hlt.ne', hlt.not_gt]
  · simp
  · simp [hgt, hgt.ne, hgt.ne', hgt.not_gt]

theorem get?_erase :
    get? (erase entries key) other = if other = key then none else get? entries other := by
  unfold erase
  rw [get?_filter (fun candidate => decide (candidate ≠ key))]
  by_cases heq : other = key
  · simp
  · simp

theorem Sorted.nodup (hsorted : Sorted entries) : entries.Nodup := by
  apply List.Pairwise.imp _ hsorted
  intro entry other hlt heq
  rw [heq] at hlt
  exact lt_irrefl _ hlt

theorem get?_insert_self : get? (insert entries key value) key = some value := by
  rw [get?_insert, if_pos rfl]

theorem get?_insert_of_ne (h : other ≠ key) :
    get? (insert entries key value) other = get? entries other := by
  rw [get?_insert, if_neg h]

theorem get?_cons_self (value : V) (entries : List (K × V)) (key : K) :
    get? ((key, value) :: entries) key = some value := by
  rw [get?_cons, if_pos rfl]

theorem get?_cons_of_ne (value : V) (entries : List (K × V)) (h : other ≠ key) :
    get? ((key, value) :: entries) other = get? entries other := by
  rw [get?_cons, if_neg (Ne.symm h)]

theorem Sorted.get?_tail (hsorted : Sorted ((key, value) :: entries)) :
    get? entries key = none := by
  apply Option.eq_none_iff_forall_ne_some.mpr
  intro found hfound
  have hlt := (pairwise_cons.mp hsorted).1 _ (mem_of_get? hfound)
  exact lt_irrefl _ hlt

/-- Sorted lists are told apart by what they have at a key. -/
theorem Sorted.ext {entries others : List (K × V)} (hentries : Sorted entries)
    (hothers : Sorted others) (h : ∀ key, get? entries key = get? others key) :
    entries = others := by
  have hmem : ∀ entry, entry ∈ entries ↔ entry ∈ others := by
    rintro ⟨key, value⟩
    rw [← hentries.get?_eq_some_iff, ← hothers.get?_eq_some_iff, h]
  exact List.Perm.eq_of_pairwise (fun _ _ _ _ hlt hgt => absurd hgt (lt_asymm hlt)) hentries
    hothers ((perm_ext_iff_of_nodup hentries.nodup hothers.nodup).mpr hmem)

end Keyed

end Foundation
