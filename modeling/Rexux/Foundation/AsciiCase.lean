import Rexux.Foundation.Text

/-!
# ASCII case

`toAsciiLowercase` changes the letters `A` to `Z` and nothing else.  Scanning
for white space or for any character that is not a letter is therefore blind to
it, which is what the lemmas here say of the scanners that host names and
patterns go through.
-/

namespace Foundation

open List Bool

def toAsciiLowercase (t : Text) : Text := t.map Char.toLower

theorem toNat_toLower (c : Char) :
    c.toLower.toNat = if 65 ≤ c.toNat ∧ c.toNat ≤ 90 then c.toNat + 32 else c.toNat := by
  have hval : ∀ n : UInt32, n.toNat ≤ 90 → (n + ('a'.val - 'A'.val)).toNat = n.toNat + 32 := by
    intro n hn
    rw [UInt32.toNat_add]
    have hdiff : ('a'.val - 'A'.val).toNat = 32 := by decide
    omega
  by_cases h : 65 ≤ c.toNat ∧ c.toNat ≤ 90
  · have h' : c.val ≥ 'A'.val ∧ c.val ≤ 'Z'.val := h
    rw [if_pos h]
    delta Char.toLower
    rw [dif_pos h']
    exact hval c.val h.2
  · have h' : ¬ (c.val ≥ 'A'.val ∧ c.val ≤ 'Z'.val) := h
    rw [if_neg h]
    delta Char.toLower
    rw [dif_neg h']

/-- The character is no ASCII letter. -/
def isCaseless (c : Char) : Bool :=
  !((65 ≤ c.toNat && c.toNat ≤ 90) || (97 ≤ c.toNat && c.toNat ≤ 122))

theorem toLower_eq_iff_of_isCaseless
    {c : Char} (hc : isCaseless c) (d : Char) : d.toLower = c ↔ d = c := by
  have hcase : ∀ e : Char, e = c ↔ e.toNat = c.toNat := fun e => Char.toNat_inj.symm
  rw [hcase, hcase, toNat_toLower]
  simp only [isCaseless, not_eq_true', or_eq_false_iff,
    and_eq_false_iff, decide_eq_false_iff_not] at hc
  split_ifs <;> omega

theorem toLower_toLower (c : Char) : c.toLower.toLower = c.toLower := by
  rw [← Char.toNat_inj, toNat_toLower, toNat_toLower]
  split_ifs <;> omega

theorem isWhitespace_toLower (c : Char) : isWhitespace c.toLower = isWhitespace c := by
  unfold isWhitespace
  rw [toNat_toLower]
  split_ifs with h
  · rw [Bool.eq_iff_iff]
    simp only [or_eq_true, and_eq_true, decide_eq_true_eq]
    omega
  · rfl

@[simp] theorem toAsciiLowercase_idem (t : Text) :
    toAsciiLowercase (toAsciiLowercase t) = toAsciiLowercase t := by
  rw [toAsciiLowercase, toAsciiLowercase, map_map]
  exact map_congr_left fun c _ => toLower_toLower c

@[simp] theorem length_toAsciiLowercase (t : Text) : (toAsciiLowercase t).length = t.length := by
  simp [toAsciiLowercase]

theorem takeWhile_toAsciiLowercase {p : Char → Bool} (hp : ∀ c, p c.toLower = p c) (t : Text) :
    (toAsciiLowercase t).takeWhile p = toAsciiLowercase (t.takeWhile p) := by
  have hcomp : p ∘ Char.toLower = p := funext hp
  rw [toAsciiLowercase, takeWhile_map, hcomp, toAsciiLowercase]

theorem dropWhile_toAsciiLowercase {p : Char → Bool} (hp : ∀ c, p c.toLower = p c) (t : Text) :
    (toAsciiLowercase t).dropWhile p = toAsciiLowercase (t.dropWhile p) := by
  have hcomp : p ∘ Char.toLower = p := funext hp
  rw [toAsciiLowercase, dropWhile_map, hcomp, toAsciiLowercase]

theorem trim_toAsciiLowercase (t : Text) :
    trim (toAsciiLowercase t) = toAsciiLowercase (trim t) := by
  have hreverse : ∀ s : Text,
      (toAsciiLowercase s).reverse = toAsciiLowercase s.reverse := fun s => by
    simp [toAsciiLowercase]
  simp only [trim, trimEnd, trimStart, List.rdropWhile]
  rw [dropWhile_toAsciiLowercase isWhitespace_toLower, hreverse,
    dropWhile_toAsciiLowercase isWhitespace_toLower, hreverse]

theorem isPrefixOf?_toAsciiLowercase {marker : Text} (hmarker : marker.all isCaseless) (t : Text) :
    marker.isPrefixOf? (toAsciiLowercase t) = (marker.isPrefixOf? t).map toAsciiLowercase := by
  induction marker generalizing t with
  | nil => rfl
  | cons c marker ih =>
    cases t with
    | nil => rfl
    | cons d t =>
      rw [all_cons, and_eq_true] at hmarker
      obtain ⟨hc, hrest⟩ := hmarker
      have heq : (c == d.toLower) = (c == d) := by
        rw [Bool.eq_iff_iff, beq_iff_eq, beq_iff_eq, eq_comm,
          toLower_eq_iff_of_isCaseless hc, eq_comm]
      have hcons : toAsciiLowercase (d :: t) = d.toLower :: toAsciiLowercase t := rfl
      rw [hcons, List.isPrefixOf?, heq, List.isPrefixOf?]
      split_ifs
      · exact ih hrest t
      · rfl

theorem count_toAsciiLowercase {c : Char} (hc : isCaseless c) (t : Text) :
    (toAsciiLowercase t).count c = t.count c := by
  rw [toAsciiLowercase, count_eq_countP, countP_map]
  apply countP_congr
  intro d _
  simp only [Function.comp_apply, beq_iff_eq]
  exact toLower_eq_iff_of_isCaseless hc d

end Foundation
