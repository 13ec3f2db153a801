import Mathlib.Data.List.Destutter
import Mathlib.Data.List.Sort
import Rexux.Foundation.Text

/-!
# Fuzzy matching

The haystack is lowercased character by character, the needle as a whole.  The two differ
for a capital sigma at the end of a word, and a needle with one is not found in itself.
-/

namespace Rexux.FuzzyMatch

open Foundation List

/-- What the Unicode tables say about single characters. -/
structure CaseTables where
  toLowercase : Char → Text
  toLowercase_sigma : toLowercase 'Σ' = ['σ']
  caseIgnorable : Char → Bool
  cased : Char → Bool

namespace CaseTables

variable (tables : CaseTables)

def caseIgnorableThenCased (chars : Text) : Bool :=
  (chars.dropWhile tables.caseIgnorable).head?.any tables.cased

/-- The characters before a sigma come with the nearest one first. -/
def isWordFinal (before after : Text) : Bool :=
  tables.caseIgnorableThenCased before && !tables.caseIgnorableThenCased after

def lowercaseFrom (before : Text) : Text → Text
  | [] => []
  | c :: after =>
    (if c = 'Σ' ∧ tables.isWordFinal before after then ['ς'] else tables.toLowercase c) ++
      lowercaseFrom (c :: before) after

def lowercase (chars : Text) : Text := chars.flatMap tables.toLowercase

end CaseTables

/-- The positions of the needle, each the first one behind the position before it. -/
def findPositions (cur : ℕ) : Text → Text → Option (List ℕ)
  | _, [] => some []
  | [], _ :: _ => none
  | lc :: lowered, nc :: needle =>
    if lc = nc then (findPositions (cur + 1) lowered needle).map (cur :: ·)
    else findPositions (cur + 1) lowered (nc :: needle)

variable (tables : CaseTables) (haystack needle : Text)

/-- Every lowered character comes with the index of the original one. -/
def loweredChars : List (Char × ℕ) :=
  haystack.zipIdx.flatMap fun (ch, origIdx) => (tables.toLowercase ch).map (·, origIdx)

def found (lowered : List (Char × ℕ)) (needleLen : ℕ) (positions : List ℕ) : List ℕ × Int32 :=
  let indices := positions.filterMap (lowered[·]?.map Prod.snd)
  let firstLowerPos := (indices.head?.bind fun target => lowered.findIdx? (·.2 = target)).getD 0
  let lastLowerPos := positions.getLast?.getD firstLowerPos
  let window := Int32.ofNat lastLowerPos - Int32.ofNat firstLowerPos + 1 - Int32.ofNat needleLen
  let score := max window 0 - if firstLowerPos = 0 then 100 else 0
  ((indices.insertionSort (· ≤ ·)).destutter (· ≠ ·), score)

/-- The positions of the needle in the haystack, and a score. -/
def fuzzyMatch : Option (List ℕ × Int32) :=
  if needle = [] then some ([], Int32.maxValue)
  else
    (findPositions 0 ((loweredChars tables haystack).map Prod.fst)
      (tables.lowercaseFrom [] needle)).map
        (found (loweredChars tables haystack) (tables.lowercaseFrom [] needle).length)

/-! ## The earliest match -/

def IsMatch (lowered needle : Text) (positions : List ℕ) : Prop :=
  positions.Pairwise (· < ·) ∧ positions.map (lowered[·]?) = needle.map some

/-- Every other match is later at every position. -/
def IsEarliestMatch (lowered needle : Text) (positions : List ℕ) : Prop :=
  IsMatch lowered needle positions ∧
    ∀ other, IsMatch lowered needle other → Forall₂ (· ≤ ·) positions other

theorem isSome_findPositions (cur : ℕ) (lowered needle : Text) :
    (findPositions cur lowered needle).isSome ↔ needle <+ lowered := by
  fun_induction findPositions cur lowered needle with
  | case1 => simp
  | case2 => simp
  | case3 cur lowered nc needle ih => rw [Option.isSome_map, ih, cons_sublist_cons]
  | case4 cur lc lowered nc needle hne ih =>
    rw [ih, cons_sublist_cons']
    simp [Ne.symm hne]

/-- Taking the first occurrence each time gives the earliest match. -/
theorem findPositions_earliest {cur : ℕ} {before lowered needle : Text} {positions : List ℕ}
    (hcur : before.length = cur) (h : findPositions cur lowered needle = some positions) :
    IsMatch (before ++ lowered) needle positions ∧ (∀ pos ∈ positions, cur ≤ pos) ∧
      ∀ other, IsMatch (before ++ lowered) needle other → (∀ pos ∈ other, cur ≤ pos) →
        Forall₂ (· ≤ ·) positions other := by
  fun_induction findPositions cur lowered needle generalizing before positions with
  | case1 =>
    cases h
    exact ⟨⟨.nil, rfl⟩, by simp, fun other hother _ => by simp [map_eq_nil_iff.mp hother.2]⟩
  | case2 => cases h
  | case3 cur lowered lc needle ih =>
    have hhere : (before ++ lc :: lowered)[cur]? = some lc := by simp [← hcur]
    have hnext : (before ++ [lc]).length = cur + 1 := by simp [hcur]
    obtain ⟨rest, hrest, rfl⟩ := Option.map_eq_some_iff.mp h
    rw [append_cons] at hhere ⊢
    obtain ⟨⟨hsorted, hchars⟩, hbound, hleast⟩ := ih hnext hrest
    refine ⟨⟨hsorted.cons hbound, ?_⟩, ?_, ?_⟩
    · rw [map_cons, hhere, hchars, map_cons]
    · exact forall_mem_cons.mpr ⟨Nat.le_refl _, fun pos hpos => Nat.le_of_succ_le (hbound pos hpos)⟩
    · rintro (_ | ⟨first, other⟩) ⟨hother, hchars⟩ hle
      · cases hchars
      · rw [pairwise_cons] at hother
        have hfirst := hle first mem_cons_self
        refine .cons hfirst (hleast other ⟨hother.2, (cons.inj hchars).2⟩ ?_)
        exact fun pos hpos => Nat.lt_of_le_of_lt hfirst (hother.1 pos hpos)
  | case4 cur lc lowered nc needle hne ih =>
    have hhere : (before ++ lc :: lowered)[cur]? = some lc := by simp [← hcur]
    have hnext : (before ++ [lc]).length = cur + 1 := by simp [hcur]
    rw [append_cons] at hhere ⊢
    obtain ⟨hmatch, hbound, hleast⟩ := ih hnext h
    refine ⟨hmatch, fun pos hpos => Nat.le_of_succ_le (hbound pos hpos), ?_⟩
    rintro (_ | ⟨first, other⟩) hother hle
    · cases hother.2
    · have hfirst : first ≠ cur := by
        rintro rfl
        have hchars := hother.2
        rw [map_cons, hhere] at hchars
        exact hne (Option.some.inj (cons.inj hchars).1)
      have hlt := Nat.lt_of_le_of_ne (hle first mem_cons_self) hfirst.symm
      apply hleast _ hother
      exact forall_mem_cons.mpr
        ⟨hlt, fun pos hpos => hlt.trans ((pairwise_cons.mp hother.1).1 pos hpos)⟩

/-! ## The characters that it hits -/

theorem destutter_of_sorted {indices : List ℕ} (h : indices.Pairwise (· ≤ ·)) :
    (indices.destutter (· ≠ ·)).Pairwise (· < ·) ∧
      ∀ i, i ∈ indices.destutter (· ≠ ·) ↔ i ∈ indices := by
  rw [h.destutter_eq_dedup]
  refine ⟨?_, fun i => mem_dedup⟩
  have hle := h.sublist (dedup_sublist indices)
  exact (hle.and (nodup_dedup indices)).imp fun hpair => Nat.lt_of_le_of_ne hpair.1 hpair.2

variable {tables haystack needle}

theorem map_fst_loweredChars :
    (loweredChars tables haystack).map Prod.fst = tables.lowercase haystack := by
  simp only [loweredChars, map_flatMap, map_map]
  rw [CaseTables.lowercase, ← zipIdx_map_fst 0 haystack, flatMap_map]
  simp [Function.comp_def]

theorem sorted_loweredChars :
    (loweredChars tables haystack).Pairwise fun hit other => hit.2 ≤ other.2 := by
  refine pairwise_flatMap.mpr ⟨?_, ?_⟩
  · intro entry _
    exact pairwise_map.mpr (pairwise_of_forall fun _ _ => Nat.le_refl _)
  · have hidx : haystack.zipIdx.Pairwise fun entry other => entry.2 < other.2 := by
      rw [← pairwise_map, zipIdx_map_snd]
      exact pairwise_lt_range'
    refine hidx.imp fun {entry other} hlt hit hhit next hnext => ?_
    obtain ⟨_, -, rfl⟩ := mem_map.mp hhit
    obtain ⟨_, -, rfl⟩ := mem_map.mp hnext
    exact Nat.le_of_lt hlt

theorem idx_lt_of_mem_loweredChars {hit : Char × ℕ} (h : hit ∈ loweredChars tables haystack) :
    hit.2 < haystack.length := by
  obtain ⟨entry, hentry, hhit⟩ := mem_flatMap.mp h
  obtain ⟨_, -, rfl⟩ := mem_map.mp hhit
  exact snd_lt_of_mem_zipIdx hentry

theorem found_spec {positions : List ℕ} (hsorted : positions.Pairwise (· < ·)) (needleLen : ℕ) :
    (found (loweredChars tables haystack) needleLen positions).1.Pairwise (· < ·) ∧
      ∀ i, i ∈ (found (loweredChars tables haystack) needleLen positions).1 ↔
        ∃ pos ∈ positions, ∃ c, (loweredChars tables haystack)[pos]? = some (c, i) := by
  have hindices : (positions.filterMap
      ((loweredChars tables haystack)[·]?.map Prod.snd)).Pairwise (· ≤ ·) := by
    refine hsorted.filterMap _ fun pos other hlt i hi j hj => ?_
    obtain ⟨hit, hhit, rfl⟩ := Option.map_eq_some_iff.mp hi
    obtain ⟨next, hnext, rfl⟩ := Option.map_eq_some_iff.mp hj
    obtain ⟨hpos, rfl⟩ := List.getElem?_eq_some_iff.mp hhit
    obtain ⟨hother, rfl⟩ := List.getElem?_eq_some_iff.mp hnext
    exact pairwise_iff_getElem.mp sorted_loweredChars pos other hpos hother hlt
  rw [found, hindices.insertionSort_eq]
  obtain ⟨hincreasing, hmem⟩ := destutter_of_sorted hindices
  refine ⟨hincreasing, fun i => (hmem i).trans ?_⟩
  simp [mem_filterMap]

/-- Lowered as a whole, a text differs exactly at its final sigmas. -/
theorem lowercaseFrom_eq_iff {before after : Text} :
    tables.lowercaseFrom before after = tables.lowercase after ↔
      ∀ chars rest, after = chars ++ 'Σ' :: rest →
        tables.isWordFinal (chars.reverse ++ before) rest = false := by
  induction after generalizing before with
  | nil => simp [CaseTables.lowercaseFrom, CaseTables.lowercase]
  | cons c after ih =>
    rw [CaseTables.lowercaseFrom, CaseTables.lowercase, flatMap_cons, ← CaseTables.lowercase]
    by_cases hhere : c = 'Σ' ∧ tables.isWordFinal before after
    · obtain ⟨rfl, hfinal⟩ := hhere
      rw [if_pos ⟨rfl, hfinal⟩, tables.toLowercase_sigma]
      refine iff_of_false (fun heq => absurd (cons.inj heq).1 (by decide)) fun h => ?_
      exact Bool.false_ne_true ((h [] after rfl).symm.trans hfinal)
    · rw [if_neg hhere, append_cancel_left_eq, ih]
      constructor
      · rintro h (_ | ⟨_, chars⟩) rest hsplit
        · obtain ⟨rfl, rfl⟩ := cons.inj hsplit
          simpa using hhere
        · obtain ⟨rfl, rfl⟩ := cons.inj hsplit
          simpa using h chars rest rfl
      · rintro h chars rest rfl
        simpa using h (c :: chars) rest rfl

theorem length_lowercaseFrom (before after : Text) :
    (tables.lowercaseFrom before after).length = (tables.lowercase after).length := by
  induction after generalizing before with
  | nil => rfl
  | cons c after ih =>
    rw [CaseTables.lowercaseFrom, CaseTables.lowercase, flatMap_cons, ← CaseTables.lowercase,
      length_append, length_append, ih]
    split
    next hhere => rw [hhere.1, tables.toLowercase_sigma]; rfl
    · rfl

/-- No capital sigma stands at the end of a word. -/
def HasNoFinalSigma (tables : CaseTables) (needle : Text) : Prop :=
  ∀ before after, needle = before ++ 'Σ' :: after →
    tables.isWordFinal before.reverse after = false

/-- The needle is found exactly if its lowered characters stand in the order of the haystack,
and the indices are those of the characters that the earliest match hits. -/
structure FindsSubsequence (tables : CaseTables) (haystack needle : Text) : Prop where
  isSome_iff : (fuzzyMatch tables haystack needle).isSome ↔
    tables.lowercase needle <+ tables.lowercase haystack
  earliest : ∀ indices score, fuzzyMatch tables haystack needle = some (indices, score) →
    indices.Pairwise (· < ·) ∧ (∀ i ∈ indices, i < haystack.length) ∧
      ∃ positions,
        IsEarliestMatch (tables.lowercase haystack) (tables.lowercase needle) positions ∧
        ∀ i, i ∈ indices ↔
          ∃ pos ∈ positions, ∃ c, (loweredChars tables haystack)[pos]? = some (c, i)

/-- A needle is found exactly if its lowered letters are a subsequence. -/
theorem isSome_fuzzyMatch (hneedle : needle ≠ []) :
    (fuzzyMatch tables haystack needle).isSome ↔
      tables.lowercaseFrom [] needle <+ tables.lowercase haystack := by
  rw [fuzzyMatch, if_neg hneedle, map_fst_loweredChars, Option.isSome_map, isSome_findPositions]

theorem hasNoFinalSigma_iff :
    HasNoFinalSigma tables needle ↔
      tables.lowercaseFrom [] needle = tables.lowercase needle := by
  simp only [lowercaseFrom_eq_iff, append_nil, HasNoFinalSigma]

theorem findsSubsequence_of_hasNoFinalSigma (hneedle : needle ≠ [])
    (hsigma : HasNoFinalSigma tables needle) : FindsSubsequence tables haystack needle := by
  have hlower := hasNoFinalSigma_iff.mp hsigma
  refine ⟨by rw [isSome_fuzzyMatch hneedle, hlower], fun indices score h => ?_⟩
  rw [fuzzyMatch, if_neg hneedle, hlower, map_fst_loweredChars] at h
  obtain ⟨positions, hpositions, hfound⟩ := Option.map_eq_some_iff.mp h
  obtain ⟨hmatch, -, hleast⟩ := findPositions_earliest (length_nil (α := Char)) hpositions
  obtain ⟨hincreasing, hmem⟩ := found_spec hmatch.1 (tables.lowercase needle).length
  rw [hfound] at hincreasing hmem
  refine ⟨hincreasing, fun i hi => ?_, positions, ⟨hmatch, ?_⟩, hmem⟩
  · obtain ⟨pos, -, c, hhit⟩ := (hmem i).mp hi
    exact idx_lt_of_mem_loweredChars (mem_of_getElem? hhit)
  · exact fun other hother => hleast other hother fun pos _ => Nat.zero_le pos

/-- A needle finds what it should in every haystack exactly if none of its capital sigmas
stands at the end of a word, and it then also finds itself. -/
theorem fuzzyMatch_finds_subsequences_iff (tables : CaseTables) (needle : Text)
    (hneedle : needle ≠ []) :
    ((∀ haystack, FindsSubsequence tables haystack needle) ↔ HasNoFinalSigma tables needle) ∧
      ((fuzzyMatch tables needle needle).isSome ↔ HasNoFinalSigma tables needle) := by
  have hself : (fuzzyMatch tables needle needle).isSome ↔ HasNoFinalSigma tables needle := by
    rw [isSome_fuzzyMatch hneedle, hasNoFinalSigma_iff]
    -- Both sides have the same length.
    exact ⟨fun h => h.eq_of_length (length_lowercaseFrom [] needle), fun h => h ▸ Sublist.refl _⟩
  refine ⟨⟨fun hfinds => hself.mp ?_, fun hsigma _ => ?_⟩, hself⟩
  · exact (hfinds needle).isSome_iff.mpr (Sublist.refl _)
  · exact findsSubsequence_of_hasNoFinalSigma hneedle hsigma

/-- A few letters of the tables. -/
def someLetters : CaseTables where
  toLowercase c := [if c = 'Α' then 'α' else if c = 'Σ' then 'σ' else c]
  toLowercase_sigma := rfl
  caseIgnorable _ := false
  cased c := c ∈ "ΑΣασ".toList

/-- The sigma of the needle is not the end of its word. -/
theorem first_sigma_found :
    HasNoFinalSigma someLetters "ΣΑ".toList ∧
      (fuzzyMatch someLetters "Σ-Α".toList "ΣΑ".toList).isSome := by
  have hsigma : HasNoFinalSigma someLetters "ΣΑ".toList := by
    rintro (_ | ⟨_, _ | ⟨_, before⟩⟩) after h
    · rfl
    · exact absurd (cons.inj (cons.inj h).2).1 (by decide)
    · simp at h
  have hfinds :=
    (fuzzyMatch_finds_subsequences_iff someLetters "ΣΑ".toList (by decide)).1.mpr hsigma
  exact ⟨hsigma, (hfinds "Σ-Α".toList).isSome_iff.mpr (by decide)⟩

/-- The needle is lowered to the final sigma, which the lowered haystack does not have. -/
theorem capital_word_misses_itself :
    fuzzyMatch someLetters "ΑΣ".toList "ΑΣ".toList = none ∧
      someLetters.lowercase "ΑΣ".toList <+ someLetters.lowercase "ΑΣ".toList := by
  decide

end Rexux.FuzzyMatch
