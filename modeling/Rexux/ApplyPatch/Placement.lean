import Rexux.ApplyPatch.FileUpdate
import Rexux.ApplyPatch.GrowingHunks

/-!
# Where the replacements of an update lie

Chunks are located one behind the other, but a chunk at the end of the file is looked for
there in any case when line endings are normalised, and a chunk without old lines is put
before a blank last line.
-/

namespace Rexux.ApplyPatch

open Foundation List StreamingPatchParser Replacement

/-- The first line behind the lines that are taken out. -/
def Replacement.endIdx (replacement : Replacement) : ℕ := replacement.startIdx + replacement.oldLen

/-- The chunks come from a patch that was accepted. -/
def IsParsed (chunks : List UpdateFileChunk) : Prop :=
  ∃ deltas parser path movePath, parseDeltas deltas = .ok parser ∧
    .updateFile path movePath chunks ∈ parser.state.hunks

variable {chunks : List UpdateFileChunk}

theorem IsParsed.tracksContext (h : IsParsed chunks) : ∀ chunk ∈ chunks, chunk.TracksContext := by
  obtain ⟨deltas, parser, path, movePath, hparse, hmem⟩ := h
  obtain ⟨streamed, hstreamed, hfinish⟩ := bind_eq_ok_iff.mp hparse
  rw [foldlM_pushDelta] at hstreamed
  have hkept := (pushDelta_grows hstreamed ⟨nofun, nofun, fun _ => nofun⟩).1
  exact (finish_complete hfinish hkept _ hmem).2

variable {index start : ℕ} {lines pattern : List Text}

/-- A match lies behind the start and within the lines. -/
theorem seekFrom_bounds {canon : Text → Text} (hlength : pattern.length ≤ lines.length)
    (h : seekFrom canon lines pattern start = some index) :
    start ≤ index ∧ index + pattern.length ≤ lines.length := by
  have hmem := mem_of_find?_eq_some h
  rw [mem_range'_1] at hmem
  omega

variable {mode : ApplyPatchFileUpdateMode}

/-- A match lies within the lines; at the end of the file it may lie before the start. -/
theorem seekSequence_bounds {eof : Bool} (hstart : start ≤ lines.length)
    (h : seekSequence lines pattern start eof mode = some index) :
    index + pattern.length ≤ lines.length ∧
      (mode = .preserveLineEndings ∨ eof = false → start ≤ index) := by
  unfold seekSequence at h
  split at h
  · rename_i hempty
    rw [List.isEmpty_iff.mp hempty]
    cases h
    exact ⟨hstart, fun _ => le_rfl⟩
  split at h
  · cases h
  generalize hsearch : (if eof then _ else start) = searchStart at h
  have hbounds : searchStart ≤ index ∧ index + pattern.length ≤ lines.length := by
    simp only [Option.orElse_eq_orElse, Option.orElse_eq_or, Option.or_eq_some_iff] at h
    rcases h with h | ⟨-, h | ⟨-, h | ⟨-, h⟩⟩⟩ <;> exact seekFrom_bounds (by omega) h
  refine ⟨hbounds.2, fun hmode => le_trans ?_ hbounds.1⟩
  rcases hmode with rfl | rfl
  · split at hsearch
    · exact hsearch ▸ le_max_right _ _
    · exact hsearch.le
  · exact hsearch.le

/-- The replacements of a chunk that was found at `startIdx`. -/
def locatedReplacements (mode : ApplyPatchFileUpdateMode) (startIdx : ℕ)
    (pattern newSlice : List Text) (context : List (ℕ × ℕ)) : List Replacement :=
  match mode with
  | .normalizeToLf => [⟨startIdx, pattern.length, newSlice⟩]
  | .preserveLineEndings => splitAtContext startIdx pattern newSlice 0 0 context

/-- Where a chunk is looked for, behind the line it names. -/
def searchStart (lines : List Text) (path : Text) (mode : ApplyPatchFileUpdateMode)
    (lineIndex : ℕ) (changeContext : Option Text) : Except Text ℕ :=
  match changeContext with
  | none => .ok lineIndex
  | some contextLine =>
    match seekSequence lines [contextLine] lineIndex false mode with
    | some idx => .ok (idx + 1)
    | none => .error (contextNotFoundMessage contextLine path)

variable (lines mode) in
/-- The pattern that is found, what takes its place, and where it is. -/
def searchChunk (chunk : UpdateFileChunk) (start : ℕ) : List Text × List Text × Option ℕ :=
  let direct := seekSequence lines chunk.oldLines start chunk.isEndOfFile mode
  if direct.isNone && chunk.oldLines.getLast? = some [] then
    (chunk.oldLines.dropLast,
      if chunk.newLines.getLast? = some [] then chunk.newLines.dropLast else chunk.newLines,
      seekSequence lines chunk.oldLines.dropLast start chunk.isEndOfFile mode)
  else (chunk.oldLines, chunk.newLines, direct)

/-- Where a chunk goes, with the place at which the search for the next one starts. -/
def placeChunk (lines : List Text) (path : Text) (mode : ApplyPatchFileUpdateMode)
    (chunk : UpdateFileChunk) (start : ℕ) : Except Text (List Replacement × ℕ) :=
  if chunk.oldLines.isEmpty then
    .ok ([⟨insertionIdx lines mode, 0, chunk.newLines⟩], start)
  else
    let searched := searchChunk lines mode chunk start
    match searched.2.2 with
    | none => .error (linesNotFoundMessage path chunk.oldLines)
    | some startIdx =>
      .ok (locatedReplacements mode startIdx searched.1 searched.2.1 chunk.contextLineIndices,
        startIdx + searched.1.length)

theorem chunkReplacements_eq (lines : List Text) (path : Text) (mode : ApplyPatchFileUpdateMode)
    (lineIndex : ℕ) (chunk : UpdateFileChunk) :
    chunkReplacements lines path mode lineIndex chunk =
      searchStart lines path mode lineIndex chunk.changeContext >>=
        placeChunk lines path mode chunk := by
  unfold chunkReplacements searchStart
  cases chunk.changeContext with
  | none => rfl
  | some contextLine =>
    dsimp only
    cases seekSequence lines [contextLine] lineIndex false mode <;> rfl

variable {lineIndex : ℕ} {path : Text}

theorem searchStart_bounds {changeContext : Option Text} (hindex : lineIndex ≤ lines.length)
    (h : searchStart lines path mode lineIndex changeContext = .ok start) :
    lineIndex ≤ start ∧ start ≤ lines.length := by
  unfold searchStart at h
  split at h
  · cases h
    exact ⟨le_rfl, hindex⟩
  split at h
  · rename_i hseek
    cases h
    have hcontext := seekSequence_bounds hindex hseek
    simp only [length_singleton, or_true, forall_const] at hcontext
    omega
  · cases h

variable {replacements : List Replacement} {chunk : UpdateFileChunk} {next : ℕ}

theorem placeChunk_cases (h : placeChunk lines path mode chunk start = .ok (replacements, next)) :
    (chunk.oldLines = [] ∧ next = start ∧
        replacements = [⟨insertionIdx lines mode, 0, chunk.newLines⟩]) ∨
      ∃ pattern newSlice startIdx,
        seekSequence lines pattern start chunk.isEndOfFile mode = some startIdx ∧
        next = startIdx + pattern.length ∧
        replacements = locatedReplacements mode startIdx pattern newSlice
          chunk.contextLineIndices := by
  unfold placeChunk at h
  split at h
  · rename_i hempty
    cases h
    exact .inl ⟨List.isEmpty_iff.mp hempty, rfl, rfl⟩
  · dsimp only at h
    split at h
    · cases h
    · rename_i startIdx hsearch
      cases h
      refine .inr ⟨_, _, startIdx, ?_, rfl, rfl⟩
      unfold searchChunk at *
      grind

/-- The replacements lie one behind the other between two lines. -/
structure LieWithin (replacements : List Replacement) (low high : ℕ) : Prop where
  disjoint : replacements.Pairwise (·.endIdx ≤ ·.startIdx)
  bounds : ∀ replacement ∈ replacements,
    low ≤ replacement.startIdx ∧ replacement.endIdx ≤ high

variable {newSlice : List Text} {newStart oldStart startIdx : ℕ}

theorem lieWithin_trailingReplacement (hstart : oldStart ≤ pattern.length) :
    LieWithin (trailingReplacement startIdx pattern newSlice oldStart newStart)
      (startIdx + oldStart) (startIdx + pattern.length) := by
  unfold trailingReplacement
  split
  · refine ⟨pairwise_singleton _ _, ?_⟩
    simp only [mem_singleton, forall_eq, endIdx]
    omega
  · exact ⟨Pairwise.nil, nofun⟩

variable {context : List (ℕ × ℕ)}

/-- By induction on the context lines that are still to come. -/
theorem lieWithin_splitAtContext {oldStart newStart : ℕ} (hstart : oldStart ≤ pattern.length)
    (hcontext : context.Pairwise fun entry later => entry.1 < later.1 ∧ entry.2 < later.2)
    (hbehind : ∀ entry ∈ context, oldStart ≤ entry.1) :
    LieWithin (splitAtContext startIdx pattern newSlice oldStart newStart context)
      (startIdx + oldStart) (startIdx + pattern.length) := by
  induction context generalizing oldStart newStart with
  | nil => exact lieWithin_trailingReplacement hstart
  | cons entry context ih =>
    unfold splitAtContext
    split
    · exact lieWithin_trailingReplacement hstart
    · obtain ⟨hlater, hrest⟩ := pairwise_cons.mp hcontext
      obtain ⟨hdisjoint, hbounds⟩ := @ih (entry.1 + 1) (entry.2 + 1) (by omega) hrest
        fun later hmem => (hlater later hmem).1
      constructor
      · rw [pairwise_append]
        refine ⟨by split <;> simp, hdisjoint, ?_⟩
        grind [endIdx]
      · grind [endIdx]

theorem lieWithin_locatedReplacements (mode : ApplyPatchFileUpdateMode) (startIdx : ℕ)
    (pattern newSlice : List Text)
    (hcontext : context.Pairwise fun entry later => entry.1 < later.1 ∧ entry.2 < later.2) :
    LieWithin (locatedReplacements mode startIdx pattern newSlice context)
      startIdx (startIdx + pattern.length) := by
  cases mode with
  | normalizeToLf => exact ⟨pairwise_singleton _ _, by simp [locatedReplacements, endIdx]⟩
  | preserveLineEndings =>
    exact lieWithin_splitAtContext (Nat.zero_le _) hcontext fun _ _ => Nat.zero_le _

variable (lines mode chunk) in
/-- The chunk is looked for behind the one before it, and added lines go to the end. -/
def KeepsOrder : Prop :=
  mode = .preserveLineEndings ∨
    chunk.isEndOfFile = false ∧ (chunk.oldLines = [] → lines.getLast? ≠ some [])

/-- The replacements of a chunk lie within what it matches. -/
theorem chunkReplacements_within (htracks : chunk.TracksContext) (hindex : lineIndex ≤ lines.length)
    (h : chunkReplacements lines path mode lineIndex chunk = .ok (replacements, next)) :
    next ≤ lines.length ∧ (∀ replacement ∈ replacements, replacement.endIdx ≤ lines.length) ∧
      (KeepsOrder lines mode chunk → lineIndex ≤ next ∧
        (replacements = [⟨lines.length, 0, chunk.newLines⟩] ∨
          LieWithin replacements lineIndex next)) := by
  rw [chunkReplacements_eq] at h
  obtain ⟨start, hstart, h⟩ := bind_eq_ok_iff.mp h
  obtain ⟨hlow, hhigh⟩ := searchStart_bounds hindex hstart
  rcases placeChunk_cases h with ⟨hempty, rfl, rfl⟩ | ⟨pattern, newSlice, startIdx, hseek, rfl, rfl⟩
  · have hinsertion : insertionIdx lines mode ≤ lines.length := by
      unfold insertionIdx
      grind
    refine ⟨hhigh, by simpa [endIdx] using hinsertion, fun hkeeps => ⟨hlow, .inl ?_⟩⟩
    have hend : insertionIdx lines mode = lines.length := by
      unfold insertionIdx
      rcases hkeeps with rfl | ⟨-, hlast⟩ <;> grind
    rw [hend]
  · obtain ⟨hend, hforward⟩ := seekSequence_bounds hhigh hseek
    obtain ⟨hdisjoint, hbounds⟩ :=
      lieWithin_locatedReplacements mode startIdx pattern newSlice htracks.ordered
    refine ⟨hend, fun replacement hmem => (hbounds replacement hmem).2.trans hend, fun hkeeps => ?_⟩
    have hbehind := hforward (hkeeps.imp_right And.left)
    exact ⟨by omega, .inr ⟨hdisjoint, by grind⟩⟩

/-- What is collected need not be in the order of the file, but nothing overlaps. -/
theorem collectReplacements_within (htracks : ∀ chunk ∈ chunks, chunk.TracksContext)
    (hindex : lineIndex ≤ lines.length)
    (h : collectReplacements lines path mode lineIndex chunks = .ok replacements) :
    (∀ replacement ∈ replacements, replacement.endIdx ≤ lines.length) ∧
      ((∀ chunk ∈ chunks, KeepsOrder lines mode chunk) →
        (∀ replacement ∈ replacements, lineIndex ≤ replacement.startIdx) ∧
        replacements.Pairwise fun a b =>
          (a.startIdx ≤ b.startIdx → a.endIdx ≤ b.startIdx) ∧
            (b.startIdx < a.startIdx → b.endIdx ≤ a.startIdx)) := by
  induction chunks generalizing lineIndex replacements with
  | nil =>
    cases h
    exact ⟨nofun, fun _ => ⟨nofun, Pairwise.nil⟩⟩
  | cons chunk chunks ih =>
    obtain ⟨⟨first, next⟩, hfirst, h⟩ := bind_eq_ok_iff.mp h
    obtain ⟨rest, hrest, h⟩ := bind_eq_ok_iff.mp h
    cases h
    rw [forall_mem_cons] at htracks
    obtain ⟨hnext, hbounds, hplaced⟩ := chunkReplacements_within htracks.1 hindex hfirst
    obtain ⟨hbounds', hplaced'⟩ := ih htracks.2 hnext hrest
    refine ⟨by grind, fun hkeeps => ?_⟩
    rw [forall_mem_cons] at hkeeps
    obtain ⟨hforward, hfirst⟩ := hplaced hkeeps.1
    obtain ⟨hbehind, hrest⟩ := hplaced' hkeeps.2
    rcases hfirst with rfl | ⟨hdisjoint, hwithin⟩
    · exact ⟨by grind, pairwise_cons.mpr
        ⟨fun other hother => ⟨id, fun _ => hbounds' other hother⟩, hrest⟩⟩
    · refine ⟨by grind, pairwise_append.mpr ⟨?_, hrest, ?_⟩⟩
      · refine hdisjoint.imp ?_
        grind [endIdx]
      · grind [endIdx]

def removeLines : ℕ → ℕ → List Text → List Text
  | 0, _, lines => lines
  | count + 1, index, lines =>
    removeLines count index (if index < lines.length then lines.eraseIdx index else lines)

/-- An insertion behind the end would panic. -/
def insertLines : ℕ → List Text → List Text → Option (List Text)
  | _, [], lines => some lines
  | index, line :: segment, lines =>
    if index ≤ lines.length then insertLines (index + 1) segment (lines.insertIdx index line)
    else none

/-- The loops of `apply_replacements`, with the panics they could meet. -/
def applyInPlace (lines : List Text) (replacements : List Replacement) : Option (List Text) :=
  replacements.foldrM (fun replacement lines =>
    insertLines replacement.startIdx replacement.newSegment
      (removeLines replacement.oldLen replacement.startIdx lines)) lines

theorem removeLines_append (count : ℕ) (before after : List Text) :
    removeLines count before.length (before ++ after) = before ++ after.drop count := by
  induction count generalizing after with
  | zero => rfl
  | succ count ih =>
    cases after with
    | nil => simpa [removeLines] using ih []
    | cons line after => simpa [removeLines, eraseIdx_append_of_length_le] using ih after

theorem insertLines_append (before segment after : List Text) :
    insertLines before.length segment (before ++ after) = some (before ++ segment ++ after) := by
  induction segment generalizing before with
  | nil => simp [insertLines]
  | cons line segment ih =>
    have hrest := ih (before ++ [line])
    rw [insertLines, insertIdx_length_append]
    simpa using hrest

theorem insertLines_removeLines (h : index ≤ lines.length) (count : ℕ) (segment : List Text) :
    insertLines index segment (removeLines count index lines) =
      some (lines.take index ++ segment ++ lines.drop (index + count)) := by
  obtain ⟨before, after, rfl, rfl⟩ : ∃ before after, lines = before ++ after ∧
      before.length = index :=
    ⟨_, _, (take_append_drop index lines).symm, length_take_of_le h⟩
  rw [removeLines_append, insertLines_append]
  simp

/-- Editing in place, from the back, is the same as replacing all at once. -/
theorem applyInPlace_eq (hsorted : replacements.Pairwise (·.startIdx ≤ ·.startIdx))
    (hbounds : ∀ replacement ∈ replacements, replacement.startIdx ≤ lines.length) :
    applyInPlace lines replacements = some (applyReplacements lines replacements) ∧
      ∀ low ≤ lines.length, (∀ replacement ∈ replacements, low ≤ replacement.startIdx) →
        low ≤ (applyReplacements lines replacements).length := by
  induction replacements with
  | nil => exact ⟨rfl, fun low hlow _ => hlow⟩
  | cons replacement rest ih =>
    rw [pairwise_cons] at hsorted
    rw [forall_mem_cons] at hbounds
    obtain ⟨hrest, hlength⟩ := ih hsorted.2 hbounds.2
    have hstart := hlength _ hbounds.1 hsorted.1
    rw [applyInPlace] at hrest ⊢
    rw [foldrM_cons, hrest]
    refine ⟨insertLines_removeLines hstart _ _, fun low _ hlow => ?_⟩
    rw [forall_mem_cons] at hlow
    change low ≤ (take replacement.startIdx (applyReplacements lines rest) ++
      replacement.newSegment ++ drop _ _).length
    rw [length_append, length_append, length_take_of_le hstart]
    omega

/-- The replacements of parsed chunks are in order and within the file, so editing them in
place is safe.  They do not overlap as long as every chunk keeps to the order of the file. -/
theorem replacements_well_placed (lines : List Text) (path : Text) (chunks : List UpdateFileChunk)
    (mode : ApplyPatchFileUpdateMode) (replacements : List Replacement) (hparsed : IsParsed chunks)
    (h : computeReplacements lines path chunks mode = .ok replacements) :
    replacements.Pairwise (·.startIdx ≤ ·.startIdx) ∧
      (∀ replacement ∈ replacements, replacement.endIdx ≤ lines.length) ∧
      ((∀ chunk ∈ chunks, KeepsOrder lines mode chunk) →
        replacements.Pairwise (·.endIdx ≤ ·.startIdx)) ∧
      applyInPlace lines replacements = some (applyReplacements lines replacements) := by
  obtain ⟨collected, hcollect, h⟩ := bind_eq_ok_iff.mp h
  cases h
  obtain ⟨hbounds, hplaced⟩ :=
    collectReplacements_within hparsed.tracksContext (Nat.zero_le _) hcollect
  have hsorted :=
    pairwise_insertionSort (fun a b : Replacement => a.startIdx ≤ b.startIdx) collected
  have hends : ∀ replacement ∈ collected.insertionSort (fun a b => a.startIdx ≤ b.startIdx),
      replacement.endIdx ≤ lines.length := fun replacement hmem =>
    hbounds replacement ((mem_insertionSort _).mp hmem)
  refine ⟨hsorted, hends, fun hkeeps => ?_, (applyInPlace_eq hsorted fun replacement hmem => ?_).1⟩
  · exact pairwise_insertionSort_of_stable (hplaced hkeeps).2
  · exact (Nat.le_add_right _ _).trans (hends replacement hmem)

/-- Two lines are replaced, and then one at the end of the file. -/
def lineAtEnd : List UpdateFileChunk :=
  [⟨none, [['a'], ['b']], [['c']], [], false⟩, ⟨none, [['b']], [['d']], [], true⟩]

/-- Two lines are replaced, the second of them blank, and then one is added. -/
def lineAdded : List UpdateFileChunk :=
  [⟨none, [['a'], []], [['c']], [], false⟩, ⟨none, [], [['d']], [], false⟩]

theorem isParsed_lineAtEnd : IsParsed lineAtEnd :=
  ⟨["*** Begin Patch\n*** Update File: f\n-a\n-b\n+c\n@@\n-b\n+d\n".toList,
      "*** End of File\n*** End Patch".toList],
    ⟨[], ⟨.endedPatch, [.updateFile ['f'] none lineAtEnd], none⟩, 10⟩, ['f'], none,
    by decide +kernel, mem_cons_self⟩

theorem isParsed_lineAdded : IsParsed lineAdded :=
  ⟨["*** Begin Patch\n*** Update File: f\n-a\n-\n+c\n@@\n+d\n*** End Patch".toList],
    ⟨[], ⟨.endedPatch, [.updateFile ['f'] none lineAdded], none⟩, 8⟩, ['f'], none,
    by decide +kernel, mem_cons_self⟩

theorem lineAtEnd_placed_behind :
    [mk 0 2 [['c']], ⟨2, 1, [['d']]⟩].Pairwise (·.endIdx ≤ ·.startIdx) :=
  (replacements_well_placed [['a'], ['b'], ['b']] ['f'] lineAtEnd .preserveLineEndings _
    isParsed_lineAtEnd (by decide +kernel)).2.2.1 fun _ _ => .inl rfl

/-- With line endings normalised a chunk at the end is found before the line that the search
has come to, and lines are added before a blank last line that is replaced. -/
theorem normalized_replacements_overlap :
    (IsParsed lineAtEnd ∧ ∃ replacements,
      computeReplacements [['a'], ['b']] ['f'] lineAtEnd .normalizeToLf = .ok replacements ∧
        ¬ replacements.Pairwise (·.endIdx ≤ ·.startIdx)) ∧
      (IsParsed lineAdded ∧ ∃ replacements,
        computeReplacements [['a'], []] ['f'] lineAdded .normalizeToLf = .ok replacements ∧
          ¬ replacements.Pairwise (·.endIdx ≤ ·.startIdx)) :=
  ⟨⟨isParsed_lineAtEnd, [⟨0, 2, [['c']]⟩, ⟨1, 1, [['d']]⟩], by decide +kernel, by decide⟩,
    isParsed_lineAdded, [⟨0, 2, [['c']]⟩, ⟨1, 0, [['d']]⟩], by decide +kernel, by decide⟩

end Rexux.ApplyPatch
