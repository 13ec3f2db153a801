import Mathlib.Data.List.Basic
import Mathlib.Data.Nat.Cast.Basic

/-!
# Byte streams

Two ways of cutting a stream of bytes that its reader can undo: into chunks of a
bounded size, and into frames that begin with their length as four bytes, the most
significant first.
-/

namespace Foundation

open List

abbrev ByteString := List UInt8

section Chunks

variable {α : Type*}

def chunksFrom (size : ℕ) : ℕ → List α → List (List α)
  | 0, _ => []
  | _ + 1, [] => []
  | fuel + 1, items@(_ :: _) => items.take size :: chunksFrom size fuel (items.drop size)

/-- Cut a list into pieces of a size; the last one may be shorter. -/
def chunks (size : ℕ) (items : List α) : List (List α) := chunksFrom size items.length items

variable {size : ℕ} {items : List α}

theorem flatten_chunksFrom (hsize : 0 < size) {fuel : ℕ} (hfuel : items.length ≤ fuel) :
    (chunksFrom size fuel items).flatten = items := by
  induction fuel generalizing items with
  | zero =>
    rw [eq_nil_of_length_eq_zero (Nat.le_zero.mp hfuel)]
    rfl
  | succ fuel ih =>
    cases items with
    | nil => rfl
    | cons item items =>
      rw [chunksFrom, flatten_cons, ih, take_append_drop]
      rw [length_drop, length_cons]
      rw [length_cons] at hfuel
      omega

theorem flatten_chunks (hsize : 0 < size) (items : List α) : (chunks size items).flatten = items :=
  flatten_chunksFrom hsize (Nat.le_refl _)

theorem exists_take_of_mem_chunks {chunk : List α} (h : chunk ∈ chunks size items) :
    ∃ item rest, chunk = (item :: rest).take size := by
  unfold chunks at h
  generalize items.length = fuel at h
  induction fuel generalizing items with
  | zero => cases h
  | succ fuel ih =>
    cases items with
    | nil => cases h
    | cons item items =>
      rcases mem_cons.mp h with rfl | h
      · exact ⟨item, items, rfl⟩
      · exact ih h

theorem length_le_of_mem_chunks {chunk : List α} (h : chunk ∈ chunks size items) :
    chunk.length ≤ size := by
  obtain ⟨item, rest, rfl⟩ := exists_take_of_mem_chunks h
  exact length_take_le _ _

theorem ne_nil_of_mem_chunks (hsize : 0 < size) {chunk : List α} (h : chunk ∈ chunks size items) :
    chunk ≠ [] := by
  obtain ⟨item, rest, rfl⟩ := exists_take_of_mem_chunks h
  simp [Nat.ne_of_gt hsize]

/-- Division, rounded up. -/
def divCeil (n size : ℕ) : ℕ := (n + size - 1) / size

theorem divCeil_le_iff (hsize : 0 < size) {n count : ℕ} :
    divCeil n size ≤ count ↔ n ≤ count * size := by
  rw [divCeil, ← Nat.lt_succ_iff, Nat.div_lt_iff_lt_mul hsize, Nat.succ_mul]
  omega

theorem length_chunksFrom (hsize : 0 < size) {fuel : ℕ} (hfuel : items.length ≤ fuel) :
    (chunksFrom size fuel items).length = divCeil items.length size := by
  induction fuel generalizing items with
  | zero =>
    rw [eq_nil_of_length_eq_zero (Nat.le_zero.mp hfuel)]
    exact (Nat.div_eq_of_lt (by rw [length_nil]; omega)).symm
  | succ fuel ih =>
    cases items with
    | nil => exact (Nat.div_eq_of_lt (by rw [length_nil]; omega)).symm
    | cons item items =>
      have hrest : ((item :: items).drop size).length ≤ fuel := by
        rw [length_drop, length_cons]
        rw [length_cons] at hfuel
        omega
      rw [chunksFrom, length_cons, ih hrest, length_drop, divCeil, divCeil,
        ← Nat.add_div_right _ hsize]
      by_cases hle : size ≤ (item :: items).length
      · congr 1
        omega
      · rw [length_cons] at hle ⊢
        have hone (n : ℕ) (hlow : size ≤ n) (hhigh : n < 2 * size) : n / size = 1 :=
          Nat.div_eq_of_lt_le (by omega) (by omega)
        rw [hone _ (by omega) (by omega), hone _ (by omega) (by omega)]

/-- There are as many chunks as division with rounding up gives. -/
theorem length_chunks (hsize : 0 < size) (items : List α) :
    (chunks size items).length = divCeil items.length size :=
  length_chunksFrom hsize (Nat.le_refl _)

end Chunks

/-- Four bytes, the highest first. -/
def toBeBytes (n : ℕ) : ByteString :=
  [UInt8.ofNat (n / 2 ^ 24), UInt8.ofNat (n / 2 ^ 16), UInt8.ofNat (n / 2 ^ 8), UInt8.ofNat n]

def ofBeBytes (b0 b1 b2 b3 : UInt8) : ℕ :=
  b0.toNat * 2 ^ 24 + b1.toNat * 2 ^ 16 + b2.toNat * 2 ^ 8 + b3.toNat

theorem ofBeBytes_toBeBytes {n : ℕ} (h : n < 2 ^ 32) :
    ofBeBytes (UInt8.ofNat (n / 2 ^ 24)) (UInt8.ofNat (n / 2 ^ 16)) (UInt8.ofNat (n / 2 ^ 8))
      (UInt8.ofNat n) = n := by
  simp only [ofBeBytes, UInt8.toNat_ofNat']
  omega

@[simp] theorem length_toBeBytes (n : ℕ) : (toBeBytes n).length = 4 := rfl

end Foundation
