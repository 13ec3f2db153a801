import Mathlib.Data.List.DropRight
import Mathlib.Data.List.Sort

/-!
# Editing a list by positions

A scan of a list notes positions, and a second pass inserts after them or takes the
items there out.  Both passes come to a description of each item by itself.
-/

namespace Foundation

open List

variable {α : Type*}

/-- The last insertion is made first, so the earlier positions stay valid. -/
def insertAllAfter (edits : List (ℕ × α)) (items : List α) : List α :=
  edits.foldr (fun edit edited => edited.insertIdx (edit.1 + 1) edit.2) items

def editsFrom (f : α → Option α) (start : ℕ) (items : List α) : List (ℕ × α) :=
  (items.zipIdx start).filterMap fun entry => (f entry.1).map (Prod.mk entry.2)

theorem insertIdx_length_append (left right : List α) (item : α) :
    (left ++ right).insertIdx left.length item = left ++ item :: right := by
  induction left with
  | nil => rfl
  | cons first left ih => rw [cons_append, length_cons, insertIdx_succ_cons, ih]; rfl

/-- Insertions from the back do not move the positions still to come. -/
theorem insertAllAfter_append (f : α → Option α) (scanned items : List α) :
    insertAllAfter (editsFrom f scanned.length items) (scanned ++ items) =
      scanned ++ items.flatMap fun item => item :: (f item).toList := by
  induction items generalizing scanned with
  | nil => rfl
  | cons item items ih =>
    have hrest := ih (scanned ++ [item])
    rw [length_append, length_singleton, append_assoc, append_assoc] at hrest
    cases hitem : f item with
    | none =>
      have hedits : editsFrom f scanned.length (item :: items) =
          editsFrom f (scanned.length + 1) items := by
        simp [editsFrom, hitem]
      rw [hedits, flatMap_cons, hitem]
      exact hrest
    | some inserted =>
      have hedits : editsFrom f scanned.length (item :: items) =
          (scanned.length, inserted) :: editsFrom f (scanned.length + 1) items := by
        simp [editsFrom, hitem]
      have hinsert := insertIdx_length_append (scanned ++ [item])
        (items.flatMap fun item => item :: (f item).toList) inserted
      rw [hedits]
      change (insertAllAfter (editsFrom f (scanned.length + 1) items)
        (scanned ++ ([item] ++ items))).insertIdx (scanned.length + 1) inserted = _
      rw [hrest, flatMap_cons, hitem]
      simpa using hinsert

/-- The positions of the items that satisfy `p`. -/
def positionsFrom (p : α → Bool) (start : ℕ) (items : List α) : List ℕ :=
  (items.zipIdx start).filterMap fun entry => if p entry.1 then some entry.2 else none

/-- Walk the list beside an ascending list of positions to leave out. -/
def retainExcept : ℕ → List ℕ → List α → List α
  | _, _, [] => []
  | position, positions, item :: items =>
    if positions.head? = some position then retainExcept (position + 1) positions.tail items
    else item :: retainExcept (position + 1) positions items

variable {items : List α} {start : ℕ}

theorem le_of_mem_positionsFrom {p : α → Bool} {position : ℕ}
    (h : position ∈ positionsFrom p start items) : start ≤ position := by
  obtain ⟨entry, hentry, hposition⟩ := mem_filterMap.mp h
  have hstart := le_snd_of_mem_zipIdx hentry
  split_ifs at hposition
  cases hposition
  exact hstart

variable {item : α}

section Positions

variable (p : α → Bool)

theorem positionsFrom_append (start : ℕ) (left right : List α) :
    positionsFrom p start (left ++ right) =
      positionsFrom p start left ++ positionsFrom p (start + left.length) right := by
  simp [positionsFrom, zipIdx_append]

theorem positionsFrom_cons_of_pos (start : ℕ) (h : p item) (items : List α) :
    positionsFrom p start (item :: items) = start :: positionsFrom p (start + 1) items := by
  simp [positionsFrom, h]

theorem positionsFrom_cons_of_neg (start : ℕ) (h : p item = false) (items : List α) :
    positionsFrom p start (item :: items) = positionsFrom p (start + 1) items := by
  simp [positionsFrom, h]

theorem positionsFrom_eq_nil (h : ∀ item ∈ items, p item = false) :
    positionsFrom p start items = [] := by
  apply filterMap_eq_nil_iff.mpr
  intro entry hentry
  rw [h entry.1 (fst_mem_of_mem_zipIdx hentry)]
  rfl

theorem length_positionsFrom (start : ℕ) (items : List α) :
    (positionsFrom p start items).length = items.countP p := by
  induction items generalizing start with
  | nil => rfl
  | cons item items ih =>
    cases hitem : p item with
    | true =>
      rw [positionsFrom_cons_of_pos p start hitem, length_cons, ih, countP_cons_of_pos hitem]
    | false =>
      rw [positionsFrom_cons_of_neg p start hitem, ih, countP_cons_of_neg (by simp [hitem])]

theorem exists_split_of_getElem?_positionsFrom {index position : ℕ}
    (h : (positionsFrom p start items)[index]? = some position) :
    ∃ before item after, items = before ++ item :: after ∧ p item ∧
      before.countP p = index := by
  induction items generalizing start index with
  | nil => simp [positionsFrom] at h
  | cons first items ih =>
    cases hfirst : p first with
    | true =>
      rw [positionsFrom_cons_of_pos p start hfirst] at h
      cases index with
      | zero =>
        exact ⟨[], first, items, rfl, hfirst, rfl⟩
      | succ index =>
        obtain ⟨before, item, after, rfl, hitem, hcount⟩ := ih h
        refine ⟨first :: before, item, after, rfl, hitem, ?_⟩
        rw [countP_cons_of_pos hfirst, hcount]
    | false =>
      rw [positionsFrom_cons_of_neg p start hfirst] at h
      obtain ⟨before, item, after, rfl, hitem, hcount⟩ := ih h
      refine ⟨first :: before, item, after, rfl, hitem, ?_⟩
      rw [countP_cons_of_neg (by simp [hfirst]), hcount]

theorem retainExcept_eq_filter (start : ℕ) (items : List α) :
    retainExcept start (positionsFrom p start items) items = items.filter (!p ·) := by
  induction items generalizing start with
  | nil => rfl
  | cons item items ih =>
    cases hitem : p item with
    | true =>
      rw [positionsFrom_cons_of_pos p start hitem, retainExcept, tail_cons, ih]
      simp [hitem]
    | false =>
      have hhead : (positionsFrom p (start + 1) items).head? ≠ some start := by
        intro hhead
        have hle := le_of_mem_positionsFrom (mem_of_mem_head? hhead)
        omega
      rw [positionsFrom_cons_of_neg p start hitem, retainExcept, if_neg hhead, ih]
      simp [hitem]

end Positions

section Trimming

variable {p : α → Bool}

theorem rdropWhile_append_of_all {left right : List α} (h : ∀ item ∈ right, p item) :
    (left ++ right).rdropWhile p = left.rdropWhile p := by
  rw [rdropWhile, reverse_append,
    dropWhile_append_of_pos fun item hitem => h item (mem_reverse.mp hitem)]
  rfl

theorem lt_length_rdropWhile {index : ℕ}
    (hindex : items[index]? = some item) (hitem : p item = false) :
    index < (items.rdropWhile p).length := by
  by_contra hpast
  rw [← rdropWhile_append_rtakeWhile (p := p) (l := items),
    getElem?_append_right (Nat.not_lt.mp hpast)] at hindex
  have htaken := mem_rtakeWhile_imp (mem_of_getElem? hindex)
  rw [hitem] at htaken
  cases htaken

theorem filter_rdropWhile {q : α → Bool} (hpq : ∀ item, p item → q item = false)
    (items : List α) : (items.rdropWhile p).filter q = items.filter q := by
  have htaken : (items.rtakeWhile p).filter q = [] :=
    filter_eq_nil_iff.mpr fun item hitem =>
      Bool.eq_false_iff.mp (hpq item (mem_rtakeWhile_imp hitem))
  conv_rhs => rw [← rdropWhile_append_rtakeWhile (p := p) (l := items), filter_append, htaken]
  exact (append_nil _).symm

end Trimming

variable {R : α → α → Prop}

section Stable

variable {key : α → ℕ}

theorem pairwise_orderedInsert_of_stable
    (hsorted : items.Pairwise (key · ≤ key ·)) (h : items.Pairwise R)
    (hitem : ∀ other ∈ items, (key item ≤ key other → R item other) ∧
      (key other < key item → R other item)) :
    (items.orderedInsert (key · ≤ key ·) item).Pairwise R := by
  induction items with
  | nil => simp
  | cons first items ih =>
    rw [pairwise_cons] at hsorted h
    rw [orderedInsert]
    split
    · refine pairwise_cons.mpr ⟨fun other hother => (hitem other hother).1 ?_, pairwise_cons.mpr h⟩
      grind
    · rw [pairwise_cons]
      refine ⟨fun other hother => ?_, ih hsorted.2 h.2 fun other hother =>
        hitem other (mem_cons_of_mem _ hother)⟩
      rw [mem_orderedInsert] at hother
      grind

/-- Items are related after a stable sort if they were so, in their order or, where that is
not the order of their keys, in the opposite one. -/
theorem pairwise_insertionSort_of_stable
    (h : items.Pairwise fun a b => (key a ≤ key b → R a b) ∧ (key b < key a → R b a)) :
    (items.insertionSort (key · ≤ key ·)).Pairwise R := by
  induction items with
  | nil => exact Pairwise.nil
  | cons item items ih =>
    rw [pairwise_cons] at h
    refine pairwise_orderedInsert_of_stable (pairwise_insertionSort _ _) (ih h.2)
      fun other hother => ?_
    exact h.1 other ((mem_insertionSort _).mp hother)

end Stable

section GrowsLast

variable {before middle after : List α}

/-- Only the last item may change, and only as `R` says; items may follow it. -/
def GrowsLast (R : α → α → Prop) (before after : List α) : Prop :=
  ∀ last ∈ before.getLast?, ∃ last' rest, after = before.dropLast ++ last' :: rest ∧ R last last'

theorem growsLast_append (hrefl : ∀ item, R item item) (before rest : List α) :
    GrowsLast R before (before ++ rest) := by
  intro last hlast
  refine ⟨last, rest, ?_, hrefl last⟩
  rw [append_cons, dropLast_append_getLast? last hlast]

theorem growsLast_refl (hrefl : ∀ item, R item item) (items : List α) :
    GrowsLast R items items := by
  simpa using growsLast_append hrefl items []

theorem growsLast_replace {last last' : α} (hlast : before.getLast? = some last)
    (h : R last last') : GrowsLast R before (before.dropLast ++ [last']) := by
  intro other hother
  rw [hlast] at hother
  cases hother
  exact ⟨last', [], rfl, h⟩

/-- Growth at the end composes. -/
theorem GrowsLast.trans (htrans : ∀ {a b c}, R a b → R b c → R a c)
    (h : GrowsLast R before middle) (h' : GrowsLast R middle after) : GrowsLast R before after := by
  intro last hlast
  obtain ⟨last', rest, rfl, hgrows⟩ := h last hlast
  rcases eq_nil_or_concat rest with rfl | ⟨early, late, rfl⟩
  · obtain ⟨last'', rest', rfl, hgrows'⟩ := h' last' (by simp)
    exact ⟨last'', rest', by simp, htrans hgrows hgrows'⟩
  · rw [concat_eq_append, ← cons_append, ← append_assoc] at h'
    obtain ⟨last'', rest', rfl, -⟩ := h' late getLast?_concat
    rw [dropLast_concat]
    exact ⟨last', early ++ last'' :: rest', by simp, hgrows⟩

theorem GrowsLast.length_le (h : GrowsLast R before after) : before.length ≤ after.length := by
  rcases before.eq_nil_or_concat with rfl | ⟨early, last, rfl⟩
  · simp
  · obtain ⟨last', rest, rfl, -⟩ := h last (by simp)
    simp

end GrowsLast

end Foundation
