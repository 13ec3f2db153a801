import Mathlib.Data.List.Infix
import Mathlib.Data.List.Sort

/-!
# Layers over a tree

A layer covers the subtree below its target and hides what earlier layers show
there.  What a path shows is the last layer that covers it.

Layers are usually produced in blocks, one for each item of a list.  If a path is
shown by a block, then no later block covers it
(`exists_block_of_shownAt_flatMap`); and if the items are sorted by a key, every
item with a greater key is later (`mem_after_of_key_lt`).
-/

namespace Foundation

open List

/-- A layer covers everything at and below its target. -/
structure Layer (α β : Type*) where
  target : List α
  content : β
  deriving DecidableEq, Repr

section Shown

variable {α β γ : Type*} [DecidableEq α]

/-- The last layer that covers a path is what is seen. -/
def shownAt (layers : List (Layer α β)) (path : List α) : Option (Layer α β) :=
  (layers.filter fun layer => layer.target.isPrefixOf path).getLast?

variable {layers later : List (Layer α β)} {layer : Layer α β} {path : List α}

theorem shownAt_append :
    shownAt (layers ++ later) path = (shownAt later path).or (shownAt layers path) := by
  rw [shownAt, filter_append, getLast?_append]
  rfl

theorem shownAt_spec (h : shownAt layers path = some layer) :
    layer ∈ layers ∧ layer.target <+: path := by
  have hmem := mem_filter.mp (mem_of_getLast? h)
  exact ⟨hmem.1, isPrefixOf_iff_prefix.mp hmem.2⟩

theorem shownAt_eq_none_iff :
    shownAt layers path = none ↔ ∀ layer ∈ layers, ¬ layer.target <+: path := by
  simp [shownAt]

/-- Later layers come first; earlier ones are seen where no later one covers the path. -/
theorem shownAt_append_eq_some (h : shownAt (layers ++ later) path = some layer) :
    shownAt later path = some layer ∨
      shownAt later path = none ∧ shownAt layers path = some layer := by
  rw [shownAt_append] at h
  cases hlater : shownAt later path with
  | none => exact .inr ⟨rfl, by simpa [hlater] using h⟩
  | some shown => exact .inl (by simpa [hlater] using h)

theorem exists_block_of_shownAt_flatMap {block : γ → List (Layer α β)} {items : List γ}
    (h : shownAt (items.flatMap block) path = some layer) :
    ∃ before item after, items = before ++ item :: after ∧
      shownAt (block item) path = some layer ∧
      ∀ other ∈ after, shownAt (block other) path = none := by
  induction items with
  | nil => cases h
  | cons item items ih =>
    rcases shownAt_append_eq_some h with hlater | ⟨hnone, hshown⟩
    · obtain ⟨before, found, after, rfl, hfound⟩ := ih hlater
      exact ⟨item :: before, found, after, rfl, hfound⟩
    · refine ⟨[], item, items, rfl, hshown, fun other hother => ?_⟩
      rw [shownAt_eq_none_iff] at hnone ⊢
      exact fun layer hlayer => hnone layer (mem_flatMap.mpr ⟨other, hother, hlayer⟩)

end Shown

theorem mem_after_of_key_lt {γ : Type*} {key : γ → ℕ} {before after : List γ} {item other : γ}
    (hsorted : (before ++ item :: after).Pairwise fun a b => key a ≤ key b)
    (hmem : other ∈ before ++ item :: after) (hlt : key item < key other) : other ∈ after := by
  rcases mem_append.mp hmem with hbefore | hrest
  · have hle := (pairwise_append.mp hsorted).2.2 other hbefore item mem_cons_self
    omega
  · rcases mem_cons.mp hrest with rfl | hafter
    · omega
    · exact hafter

end Foundation
