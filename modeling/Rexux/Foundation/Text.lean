import Mathlib.Data.List.DropRight

/-!
# Text as lists of characters

A string is modelled by the list of its Unicode scalar values.  This module
fixes the vocabulary of a line-oriented text tool: white space in the Unicode
sense, trimming at either end, one-character suffix stripping, and the two
usual ways of cutting a text into lines.  `joinLines` is the inverse of
`splitLines`, and `textLines` is the reading in which a terminator is either a
line feed or a carriage return followed by a line feed.
-/

namespace Foundation

open List

abbrev Text := List Char

/-- The Unicode `White_Space` property. -/
def isWhitespace (c : Char) : Bool :=
  (0x9 ≤ c.toNat && c.toNat ≤ 0xD) || c.toNat = 0x20 || c.toNat = 0x85 ||
    c.toNat = 0xA0 || c.toNat = 0x1680 ||
    (0x2000 ≤ c.toNat && c.toNat ≤ 0x200A) || c.toNat = 0x2028 ||
    c.toNat = 0x2029 || c.toNat = 0x202F || c.toNat = 0x205F ||
    c.toNat = 0x3000

def trimStart (t : Text) : Text := t.dropWhile isWhitespace

def trimEnd (t : Text) : Text := t.rdropWhile isWhitespace

/-- The text without blanks at both ends. -/
def trim (t : Text) : Text := trimEnd (trimStart t)

@[simp] theorem isWhitespace_cr : isWhitespace '\r' := by decide

variable {c : Char}

theorem trimEnd_append_whitespace (t : Text) (hc : isWhitespace c) :
    trimEnd (t ++ [c]) = trimEnd t := by
  exact rdropWhile_concat_pos isWhitespace t c hc

theorem trimStart_cons_of_not_whitespace (hc : isWhitespace c = false) (t : Text) :
    trimStart (c :: t) = c :: t := by
  simp [trimStart, hc]

variable {t : Text}

theorem trimEnd_eq_self (hlast : ∀ c, t.getLast? = some c → isWhitespace c = false) :
    trimEnd t = t := by
  rw [trimEnd, rdropWhile_eq_self_iff]
  intro hne
  have hwhite := hlast (t.getLast hne) (getLast?_eq_some_getLast hne)
  simp [hwhite]

theorem trimEnd_cons_of_not_whitespace (hc : isWhitespace c = false) (t : Text) :
    trimEnd (c :: t) = c :: trimEnd t := by
  induction t using List.reverseRecOn with
  | nil => simp [trimEnd, hc]
  | append_singleton rest d ih =>
    by_cases hd : isWhitespace d
    · rw [← cons_append, trimEnd_append_whitespace _ hd, ih, trimEnd_append_whitespace _ hd]
    · have hleft : trimEnd (c :: (rest ++ [d])) = c :: (rest ++ [d]) := by
        exact rdropWhile_concat_neg isWhitespace (c :: rest) d hd
      have hright : trimEnd (rest ++ [d]) = rest ++ [d] :=
        rdropWhile_concat_neg isWhitespace rest d hd
      rw [hleft, hright]

theorem trim_cons_of_not_whitespace (hc : isWhitespace c = false) (t : Text) :
    trim (c :: t) = c :: trimEnd t := by
  rw [trim, trimStart_cons_of_not_whitespace hc, trimEnd_cons_of_not_whitespace hc]

theorem trim_append_whitespace (t : Text) (hc : isWhitespace c) : trim (t ++ [c]) = trim t := by
  unfold trim trimStart
  rw [dropWhile_append]
  split_ifs with hempty
  · have hall : t.dropWhile isWhitespace = [] := by
      simpa using hempty
    simp [hall, hc]
  · exact trimEnd_append_whitespace _ hc

theorem trim_eq_self (hhead : ∀ c, t.head? = some c → isWhitespace c = false)
    (hlast : ∀ c, t.getLast? = some c → isWhitespace c = false) : trim t = t := by
  cases t with
  | nil => rfl
  | cons c rest =>
    rw [trim, trimStart_cons_of_not_whitespace (hhead c rfl)]
    exact trimEnd_eq_self hlast

theorem isWhitespace_of_trim_eq_nil (htrim : trim t = []) (hc : c ∈ t) : isWhitespace c := by
  have hrest : ∀ d ∈ t.dropWhile isWhitespace, isWhitespace d := rdropWhile_eq_nil_iff.mp htrim
  rw [← takeWhile_append_dropWhile (p := isWhitespace) (l := t)] at hc
  rcases mem_append.mp hc with hc | hc
  · exact mem_takeWhile_imp hc
  · exact hrest c hc

/-- The text without a last `c`. -/
def stripSuffixChar (c : Char) (t : Text) : Text := if t.getLast? = some c then t.dropLast else t

@[simp] theorem stripSuffixChar_concat (c : Char) (t : Text) :
    stripSuffixChar c (t ++ [c]) = t := by
  simp [stripSuffixChar]

theorem stripSuffixChar_of_ne (h : t.getLast? ≠ some c) : stripSuffixChar c t = t := by
  simp [stripSuffixChar, h]

theorem mem_of_mem_stripSuffixChar {d : Char} (h : d ∈ stripSuffixChar c t) : d ∈ t := by
  unfold stripSuffixChar at h
  split_ifs at h
  · exact dropLast_subset t h
  · exact h

theorem isPrefixOf?_eq_none_of_head?_ne (marker : Text) (hmarker : marker.head? = some c)
    (ht : t.head? ≠ some c) : marker.isPrefixOf? t = none := by
  cases marker with
  | nil => simp at hmarker
  | cons d marker =>
    cases t with
    | nil => rfl
    | cons e t =>
      have hne : d ≠ e := by
        rintro rfl
        exact ht hmarker
      simp [List.isPrefixOf?, hne]

theorem isPrefixOf_eq_false_of_head?_ne (marker : Text) (hmarker : marker.head? = some c)
    (ht : t.head? ≠ some c) : marker.isPrefixOf t = false := by
  rw [← List.isSome_isPrefixOf?_eq_isPrefixOf, isPrefixOf?_eq_none_of_head?_ne marker hmarker ht]
  rfl

theorem head?_trimEnd (h : (trimEnd t).head? = some c) : t.head? = some c := by
  obtain ⟨rest, hrest⟩ := rdropWhile_prefix isWhitespace t
  rw [← hrest]
  change (trimEnd t ++ rest).head? = some c
  cases hcut : trimEnd t with
  | nil => simp [hcut] at h
  | cons d cut =>
    rw [hcut] at h
    simpa using h

theorem not_isWhitespace_of_trim_eq_self (htrim : trim t = t) (hlast : t.getLast? = some c) :
    isWhitespace c = false := by
  have hdrop : trimEnd t = t := by
    conv_rhs => rw [← htrim]
    conv_lhs => rw [← htrim]
    exact rdropWhile_idempotent isWhitespace _
  rw [trimEnd, rdropWhile_eq_self_iff] at hdrop
  have hne : t ≠ [] := by
    rintro rfl
    cases hlast
  have hwhite := hdrop hne
  rw [getLast?_eq_some_getLast hne, Option.some.injEq] at hlast
  simpa [hlast] using hwhite

def joinLines (lines : List Text) : Text := List.intercalate ['\n'] lines

/-- Lines, each ended by a line feed. -/
def unlines (lines : List Text) : Text := lines.flatMap (· ++ ['\n'])

/-- The complete lines of a text, and what follows the last line feed. -/
def cutLines : Text → List Text × Text
  | [] => ([], [])
  | c :: rest =>
    let (lines, tail) := cutLines rest
    if c = '\n' then ([] :: lines, tail)
    else
      match lines with
      | [] => ([], c :: tail)
      | line :: lines => ((c :: line) :: lines, tail)

/-- The pieces of a text, each up to its line feed. -/
def splitInclusive : Text → List Text
  | [] => []
  | c :: rest =>
    if c = '\n' then [c] :: splitInclusive rest
    else
      match splitInclusive rest with
      | [] => [[c]]
      | line :: lines => (c :: line) :: lines

/-- The lines of a text, each without its terminator.  A terminator is a line
feed, together with the carriage return right before it; an unterminated last
line is kept as it is. -/
def textLines (t : Text) : List Text :=
  (splitInclusive t).map fun piece =>
    if piece.getLast? = some '\n' then stripSuffixChar '\r' piece.dropLast
    else piece

@[simp] theorem unlines_nil : unlines [] = [] := rfl

@[simp] theorem unlines_cons (line : Text) (lines : List Text) :
    unlines (line :: lines) = line ++ '\n' :: unlines lines := by
  simp [unlines]

theorem joinLines_concat (lines : List Text) (tail : Text) :
    joinLines (lines ++ [tail]) = unlines lines ++ tail := by
  induction lines with
  | nil => simp [joinLines]
  | cons line rest ih =>
    cases rest with
    | nil => simp [joinLines]
    | cons next rest =>
      have hstep :
          joinLines (line :: next :: rest ++ [tail]) =
            line ++ '\n' :: joinLines (next :: rest ++ [tail]) := by
        simp [joinLines]
      rw [hstep, ih]
      simp

theorem unlines_cutLines (t : Text) : unlines (cutLines t).1 ++ (cutLines t).2 = t := by
  induction t with
  | nil => rfl
  | cons c rest ih =>
    simp only [cutLines]
    by_cases hc : c = '\n'
    · simp [hc, ih]
    · cases hlines : (cutLines rest).1 with
      | nil | cons line lines =>
        rw [hlines] at ih
        simpa [hc] using ih

/-- A line feed separates the lines before from those behind. -/
theorem cutLines_append_lf (t rest : Text) :
    cutLines (t ++ '\n' :: rest) =
      ((cutLines t).1 ++ (cutLines t).2 :: (cutLines rest).1, (cutLines rest).2) := by
  induction t with
  | nil => simp [cutLines]
  | cons c t ih =>
    rw [cons_append, cutLines, ih, cutLines]
    by_cases hc : c = '\n'
    · simp [hc]
    · cases hlines : (cutLines t).1 with
      | nil | cons => simp [hc, hlines]

theorem cutLines_of_lf_not_mem (h : '\n' ∉ t) : cutLines t = ([], t) := by
  induction t with
  | nil => rfl
  | cons c t ih =>
    have hc : c ≠ '\n' := fun heq => h (heq ▸ mem_cons_self)
    rw [cutLines, ih fun hmem => h (mem_cons_of_mem _ hmem)]
    simp [hc]

theorem lf_not_mem_cutLines (t : Text) :
    (∀ line ∈ (cutLines t).1, '\n' ∉ line) ∧ '\n' ∉ (cutLines t).2 := by
  induction t with
  | nil => simp [cutLines]
  | cons c rest ih =>
    obtain ⟨hlines, htail⟩ := ih
    simp only [cutLines]
    by_cases hc : c = '\n'
    · simp only [hc]
      exact ⟨forall_mem_cons.mpr ⟨by simp, hlines⟩, htail⟩
    · cases hcut : (cutLines rest).1 with
      | nil =>
        simp only [hc]
        exact ⟨by simp, by simp [Ne.symm hc, htail]⟩
      | cons first lines =>
        rw [hcut, forall_mem_cons] at hlines
        simp only [hc]
        refine ⟨forall_mem_cons.mpr ⟨?_, hlines.2⟩, htail⟩
        simp [Ne.symm hc, hlines.1]

theorem splitInclusive_line {line : Text} (hline : '\n' ∉ line) (rest : Text) :
    splitInclusive (line ++ '\n' :: rest) = (line ++ ['\n']) :: splitInclusive rest := by
  induction line with
  | nil => simp [splitInclusive]
  | cons c line ih =>
    have hc : c ≠ '\n' := fun h => hline (by simp [h])
    have hrest : '\n' ∉ line := fun h => hline (by simp [h])
    simp [splitInclusive, hc, ih hrest]

theorem splitInclusive_tail {tail : Text} (htail : '\n' ∉ tail) (hne : tail ≠ []) :
    splitInclusive tail = [tail] := by
  induction tail with
  | nil => exact absurd rfl hne
  | cons c tail ih =>
    have hc : c ≠ '\n' := fun h => htail (by simp [h])
    have hrest : '\n' ∉ tail := fun h => htail (by simp [h])
    cases tail with
    | nil => simp [splitInclusive]
    | cons d tail =>
      rw [splitInclusive, ih hrest (by simp)]
      simp [hc]

/-- Reading a text by lines strips one carriage return from every terminated
line and none from the unterminated last one. -/
theorem textLines_unlines_append {lines : List Text} (hlines : ∀ line ∈ lines, '\n' ∉ line)
    {tail : Text} (htail : '\n' ∉ tail) (hne : tail ≠ []) :
    textLines (unlines lines ++ tail) = lines.map (stripSuffixChar '\r') ++ [tail] := by
  induction lines with
  | nil =>
    have hlast : tail.getLast? ≠ some '\n' := by
      intro h
      exact htail (mem_of_getLast? h)
    simp [textLines, splitInclusive_tail htail hne, hlast]
  | cons line lines ih =>
    have hline : '\n' ∉ line := hlines line (by simp)
    have hrest : ∀ l ∈ lines, '\n' ∉ l := fun l hl => hlines l (by simp [hl])
    have hstep := ih hrest
    unfold textLines at hstep ⊢
    rw [unlines_cons, append_assoc, cons_append, splitInclusive_line hline, map_cons, hstep]
    simp

end Foundation
