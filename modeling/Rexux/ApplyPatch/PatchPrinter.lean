import Rexux.ApplyPatch.Parser

/-!
# Printing patches

The documented grammar read backwards: a header for every hunk, a `Move to`
line for a moved file, and for every chunk a context marker, the body lines and
possibly an end-of-file marker.  Between two context lines the removed lines
come before the added ones.  Parsing the printed text gives the hunks back.

The proof follows the printed lines through the state machine.  `Ready` holds
between hunks, `InUpdate` inside an update hunk, and each printed line has one
lemma that moves the parser from one such state to the next.
-/

namespace Rexux.ApplyPatch

open Foundation List UpdateFileChunk

/-! ## The printer -/

namespace UpdateFileChunk

/-- The line that opens the chunk. -/
def contextMarkerLine (chunk : UpdateFileChunk) : Text :=
  match chunk.changeContext with
  | none => emptyChangeContextMarker
  | some context => changeContextMarker ++ context

/-- The body lines from the given positions on: removed lines, added lines and
then the context line, for each recorded pair in turn. -/
def bodyLinesFrom (chunk : UpdateFileChunk) : ℕ → ℕ → List (ℕ × ℕ) → List Text
  | oldPos, newPos, [] =>
    (chunk.oldLines.drop oldPos).map ('-' :: ·) ++ (chunk.newLines.drop newPos).map ('+' :: ·)
  | oldPos, newPos, (oldIndex, newIndex) :: rest =>
    ((chunk.oldLines.drop oldPos).take (oldIndex - oldPos)).map ('-' :: ·) ++
      ((chunk.newLines.drop newPos).take (newIndex - newPos)).map ('+' :: ·) ++
      (' ' :: chunk.oldLines.getD oldIndex []) ::
        chunk.bodyLinesFrom (oldIndex + 1) (newIndex + 1) rest

/-- The lines of the chunk in the order in which the parser reads them back. -/
def printedLines (chunk : UpdateFileChunk) : List Text :=
  chunk.contextMarkerLine ::
    chunk.bodyLinesFrom 0 0 chunk.contextLineIndices ++
      if chunk.isEndOfFile then [eofMarker] else []

end UpdateFileChunk

/-- The lines of the hunk, its header first. -/
def Hunk.printedLines : Hunk → List Text
  | .addFile path contents => (addFileMarker ++ path) :: (cutLines contents).1.map ('+' :: ·)
  | .deleteFile path => [deleteFileMarker ++ path]
  | .updateFile path movePath chunks =>
    (updateFileMarker ++ path) ::
      (movePath.map (moveToMarker ++ ·)).toList ++ chunks.flatMap UpdateFileChunk.printedLines

/-- A patch text with the given hunks. -/
def printPatch (hunks : List Hunk) : Text :=
  joinLines (beginPatchMarker :: hunks.flatMap Hunk.printedLines ++ [endPatchMarker])

/-- A body line is printed after a sign and stripped of one carriage return
when it is read. -/
structure IsBodyText (line : Text) : Prop where
  lf_not_mem : '\n' ∉ line
  not_cr : line.getLast? ≠ some '\r'

/-- A path that survives in a header line. -/
structure IsPathText (path : Text) : Prop where
  ne_nil : path ≠ []
  lf_not_mem : '\n' ∉ path
  head_visible : ∀ c, path.head? = some c → isWhitespace c = false
  last_visible : ∀ c, path.getLast? = some c → isWhitespace c = false

/-- A chunk that can be printed and read back. -/
structure UpdateFileChunk.WellFormed (chunk : UpdateFileChunk) : Prop where
  hasLines : chunk.oldLines ≠ [] ∨ chunk.newLines ≠ []
  increasing : chunk.contextLineIndices.Pairwise fun first second =>
    first.1 < second.1 ∧ first.2 < second.2
  inRange : ∀ pair ∈ chunk.contextLineIndices,
    pair.1 < chunk.oldLines.length ∧ pair.2 < chunk.newLines.length
  sameText : ∀ pair ∈ chunk.contextLineIndices, chunk.oldLines[pair.1]? = chunk.newLines[pair.2]?
  context : ∀ context, chunk.changeContext = some context →
    context ≠ [] ∧ '\n' ∉ context ∧ ∀ c, context.getLast? = some c → isWhitespace c = false
  oldText : ∀ line ∈ chunk.oldLines, IsBodyText line
  newText : ∀ line ∈ chunk.newLines, IsBodyText line

/-- A hunk that can be printed and read back. -/
inductive Hunk.WellFormed : Hunk → Prop
  | addFile {path contents : Text} (hpath : IsPathText path)
      (hcontents : (cutLines contents).2 = [])
      (hlines : ∀ line ∈ (cutLines contents).1, IsBodyText line) :
      Hunk.WellFormed (.addFile path contents)
  | deleteFile {path : Text} (hpath : IsPathText path) :
      Hunk.WellFormed (.deleteFile path)
  | updateFile {path : Text} {movePath : Option Text}
      {chunks : List UpdateFileChunk} (hpath : IsPathText path)
      (hmove : ∀ destination, movePath = some destination → IsPathText destination)
      (hne : chunks ≠ []) (hchunks : ∀ chunk ∈ chunks, chunk.WellFormed) :
      Hunk.WellFormed (.updateFile path movePath chunks)

theorem IsBodyText.strip_cons {text : Text} (htext : IsBodyText text) {sign : Char}
    (hsign : sign ≠ '\r') : stripSuffixChar '\r' (sign :: text) = sign :: text := by
  apply stripSuffixChar_of_ne
  cases text with
  | nil => simpa using hsign
  | cons c text => simpa using htext.not_cr

variable {chunk : UpdateFileChunk} {hunks : List Hunk}

namespace StreamingPatchParser

/-- An update at the end of the list has a chunk, and its last chunk has a
line. -/
def LastHunkComplete (hunks : List Hunk) : Prop :=
  ∀ path movePath chunks,
    hunks.getLast? = some (.updateFile path movePath chunks) →
      ∃ chunk, chunks.getLast? = some chunk ∧ chunk.hasNoLines = false

variable {parser : StreamingPatchParser}

theorem ensureUpdateHunkIsNotEmpty_of_complete
    (hcomplete : LastHunkComplete parser.state.hunks) (line : Text) :
    parser.ensureUpdateHunkIsNotEmpty line = .ok () := by
  unfold ensureUpdateHunkIsNotEmpty
  split
  next path movePath chunks hlast =>
    obtain ⟨chunk, hchunk, hlines⟩ := hcomplete path movePath chunks hlast
    simp [hchunk, hlines]
  · rfl

/-- The parser is between two hunks. -/
structure Ready (parser : StreamingPatchParser) (hunks : List Hunk) : Prop where
  started : parser.state.mode ≠ .notStarted
  notEnded : parser.state.mode ≠ .endedPatch
  hunks_eq : parser.state.hunks = hunks
  environment : parser.state.environmentId = none
  complete : LastHunkComplete hunks

/-- A line that no trimming and no environment id interferes with. -/
structure IsHeaderLine (line : Text) : Prop where
  trim_eq : trim line = line
  trimEnd_eq : trimEnd line = line
  notEnvironment : environmentIdMarker.isPrefixOf? line = none
  not_cr : line.getLast? ≠ some '\r'

variable {line : Text}

theorem Ready.endLine_header (hready : parser.Ready hunks) (hline : IsHeaderLine line)
    {opened : Option Hunk × StreamingParserMode}
    (hread : readFileHeader (parser.lineNumber + 1) line = some opened) :
    parser.endLine line = .ok (parser.takeLine.enterSection opened) := by
  have hcomplete : LastHunkComplete parser.takeLine.state.hunks := hready.hunks_eq ▸ hready.complete
  have hread' : readFileHeader parser.takeLine.lineNumber line = some opened := hread
  have hhandle : parser.takeLine.handleHunkHeadersAndEndPatch line =
      .ok (some (parser.takeLine.enterSection opened)) := by
    rw [handleHunkHeadersAndEndPatch_of_not_environment _ hline.notEnvironment,
      handleFileHeadersAndEndPatch_eq, hread']
    simp [ensureUpdateHunkIsNotEmpty_of_complete hcomplete]
  unfold endLine processLine
  simp only [stripSuffixChar_of_ne hline.not_cr, hline.trim_eq, hline.trimEnd_eq, hhandle]
  cases hmode : parser.takeLine.state.mode with
  | notStarted => exact absurd hmode hready.started
  | endedPatch => exact absurd hmode hready.notEnded
  | startedPatch | deleteFile | addFile | updateFile => rfl

variable {path : Text}

theorem visible_append (marker : Text) {text : Text} (hne : text ≠ [])
    (hvisible : ∀ c, text.getLast? = some c → isWhitespace c = false) :
    (∀ c, (marker ++ text).getLast? = some c → isWhitespace c = false) ∧
      trimEnd (marker ++ text) = marker ++ text ∧ (marker ++ text).getLast? ≠ some '\r' := by
  have hlast : ∀ c, (marker ++ text).getLast? = some c → isWhitespace c = false := by
    rwa [getLast?_append_of_ne_nil _ hne]
  refine ⟨hlast, trimEnd_eq_self hlast, fun hcr => ?_⟩
  have hwhite := hlast '\r' hcr
  cases hwhite

theorem isHeaderLine_append {marker : Text} {c : Char} (hpath : IsPathText path)
    (hhead : marker.head? = some c) (hvisible : isWhitespace c = false)
    (hnot : environmentIdMarker.isPrefixOf? (marker ++ path) = none) :
    IsHeaderLine (marker ++ path) := by
  obtain ⟨hlast, htrim, hcr⟩ := visible_append marker hpath.ne_nil hpath.last_visible
  have hfirst : ∀ d, (marker ++ path).head? = some d → isWhitespace d = false := by
    intro d hd
    rw [head?_append, hhead, Option.some_or, Option.some.injEq] at hd
    exact hd ▸ hvisible
  exact ⟨trim_eq_self hfirst hlast, htrim, hnot, hcr⟩

theorem Ready.run_deleteFile (hready : parser.Ready hunks) (hpath : IsPathText path) :
    ∃ next, parser.runLines (Hunk.deleteFile path).printedLines = .ok next ∧
      next.Ready (hunks ++ [.deleteFile path]) := by
  have hline : IsHeaderLine (deleteFileMarker ++ path) := isHeaderLine_append hpath rfl rfl rfl
  have hstep := hready.endLine_header hline rfl
  refine ⟨_, by rw [Hunk.printedLines, runLines_cons, hstep]; rfl, ?_⟩
  constructor
  · simp [enterSection]
  · simp [enterSection]
  · simp [enterSection, takeLine, hready.hunks_eq]
  · simpa [enterSection, takeLine] using hready.environment
  · intro path' movePath chunks hlast
    simp at hlast

/-! ## Added files -/

/-- The parser is inside an added file. -/
structure InAdd (parser : StreamingPatchParser) (before : List Hunk)
    (path contents : Text) : Prop where
  mode_eq : parser.state.mode = .addFile
  hunks_eq : parser.state.hunks = before ++ [.addFile path contents]
  environment : parser.state.environmentId = none

variable {before : List Hunk} {contents : Text}

theorem InAdd.endLine_plus
    (hadd : parser.InAdd before path contents) {text : Text} (htext : IsBodyText text) :
    ∃ next, parser.endLine ('+' :: text) = .ok next ∧
      next.InAdd before path (contents ++ text ++ ['\n']) := by
  have hmode : parser.takeLine.state.mode = .addFile := hadd.mode_eq
  have hlast : parser.takeLine.state.hunks.getLast? = some (.addFile path contents) := by
    rw [show parser.takeLine.state.hunks = _ from hadd.hunks_eq]
    simp
  have hmarker := notMarker_trim_cons (c := '+') (by decide) (by decide) (by decide) text
  have hstep : parser.endLine ('+' :: text) = .ok (parser.takeLine.replaceLastHunk
        (.addFile path (contents ++ text ++ ['\n']))) := by
    unfold endLine processLine
    rw [htext.strip_cons (by decide)]
    simp only [hmode, hmarker.handleHunkHeadersAndEndPatch_eq, ok_bind, hlast, pure_eq_ok]
  refine ⟨_, hstep, hadd.mode_eq, ?_, hadd.environment⟩
  simp [replaceLastHunk, takeLine, hadd.hunks_eq]

variable {lines : List Text}

theorem InAdd.run_plusLines (hadd : parser.InAdd before path contents)
    (hlines : ∀ line ∈ lines, IsBodyText line) :
    ∃ next, parser.runLines (lines.map ('+' :: ·)) = .ok next ∧
      next.InAdd before path (contents ++ unlines lines) := by
  induction lines generalizing parser contents with
  | nil => exact ⟨parser, rfl, by simpa using hadd⟩
  | cons line lines ih =>
    obtain ⟨middle, hmiddle, hadd'⟩ := hadd.endLine_plus (hlines line (by simp))
    obtain ⟨next, hnext, hadd''⟩ := ih hadd' (fun l hl => hlines l (by simp [hl]))
    refine ⟨next, ?_, by simpa using hadd''⟩
    rw [map_cons, runLines_cons, hmiddle, ok_bind, hnext]

theorem InAdd.ready (hadd : parser.InAdd before path contents) :
    parser.Ready (before ++ [.addFile path contents]) where
  started := by simp [hadd.mode_eq]
  notEnded := by simp [hadd.mode_eq]
  hunks_eq := hadd.hunks_eq
  environment := hadd.environment
  complete := by
    intro path' movePath chunks hlast
    simp at hlast

/-- A printed addition is read back. -/
theorem Ready.run_addFile (hready : parser.Ready hunks)
    (hpath : IsPathText path) (hcontents : (cutLines contents).2 = [])
    (hlines : ∀ line ∈ (cutLines contents).1, IsBodyText line) :
    ∃ next,
      parser.runLines (Hunk.addFile path contents).printedLines = .ok next ∧
        next.Ready (hunks ++ [.addFile path contents]) := by
  have hline : IsHeaderLine (addFileMarker ++ path) := isHeaderLine_append hpath rfl rfl rfl
  have hstep := hready.endLine_header hline rfl
  have hadd : (parser.takeLine.enterSection
      (some (.addFile path []), .addFile)).InAdd hunks path [] := by
    refine ⟨rfl, ?_, hready.environment⟩
    simp [enterSection, takeLine, hready.hunks_eq]
  obtain ⟨next, hnext, hadd'⟩ := hadd.run_plusLines hlines
  have hwhole : unlines (cutLines contents).1 = contents := by
    have hcut := unlines_cutLines contents
    rwa [hcontents, append_nil] at hcut
  rw [hwhole] at hadd'
  refine ⟨next, ?_, hadd'.ready⟩
  rw [Hunk.printedLines, runLines_cons, hstep]
  exact hnext

/-! ## Updated files -/

/-- The parser is inside an update. -/
structure InUpdate (parser : StreamingPatchParser) (before : List Hunk)
    (path : Text) (movePath : Option Text) (chunks : List UpdateFileChunk) : Prop where
  mode_eq : ∃ hunkLineNumber, parser.state.mode = .updateFile hunkLineNumber
  hunks_eq : parser.state.hunks = before ++ [.updateFile path movePath chunks]
  environment : parser.state.environmentId = none

variable {chunks : List UpdateFileChunk} {movePath : Option Text}

theorem InUpdate.endLine {movePath' : Option Text} {chunks' : List UpdateFileChunk}
    (hupdate : parser.InUpdate before path movePath chunks)
    (hstrip : stripSuffixChar '\r' line = line)
    (hheader : ∀ lineNumber, readFileHeader lineNumber (trimEnd line) = none)
    (hedit : processUpdateLine (parser.lineNumber + 1) line movePath chunks =
      .ok (movePath', chunks')) :
    ∃ next, parser.endLine line = .ok next ∧
      next.InUpdate before path movePath' chunks' := by
  obtain ⟨hunkLineNumber, hmode⟩ := hupdate.mode_eq
  have hmode' : parser.takeLine.state.mode = .updateFile hunkLineNumber := hmode
  have hlast : parser.takeLine.state.hunks.getLast? = some (.updateFile path movePath chunks) := by
    rw [show parser.takeLine.state.hunks = _ from hupdate.hunks_eq]
    simp
  have hhandle : parser.takeLine.handleHunkHeadersAndEndPatch (trimEnd line) = .ok none := by
    unfold handleHunkHeadersAndEndPatch
    simp only [hmode', handleFileHeadersAndEndPatch_eq, hheader]
  have hedit' : processUpdateLine parser.takeLine.lineNumber line movePath
      chunks = .ok (movePath', chunks') := hedit
  have hstep : parser.endLine line = .ok (parser.takeLine.replaceLastHunk
        (.updateFile path movePath' chunks')) := by
    unfold StreamingPatchParser.endLine processLine
    simp only [hstrip, hmode', hhandle, ok_bind, hlast, hedit', pure_eq_ok]
  refine ⟨_, hstep, ⟨hunkLineNumber, hmode⟩, ?_, hupdate.environment⟩
  simp [replaceLastHunk, takeLine, hupdate.hunks_eq]

theorem InUpdate.endLine_moveTo (hupdate : parser.InUpdate before path none [])
    {destination : Text} (hdestination : IsPathText destination) :
    ∃ next, parser.endLine (moveToMarker ++ destination) = .ok next ∧
      next.InUpdate before path (some destination) [] := by
  have hline : IsHeaderLine (moveToMarker ++ destination) :=
    isHeaderLine_append hdestination rfl rfl rfl
  apply hupdate.endLine (stripSuffixChar_of_ne hline.not_cr)
  · intro lineNumber
    rw [hline.trimEnd_eq]
    rfl
  · unfold processUpdateLine
    rw [hline.trimEnd_eq]
    rfl

theorem InUpdate.endLine_contextMarker (hupdate : parser.InUpdate before path movePath chunks)
    (hcomplete : ∀ chunk, chunks.getLast? = some chunk → chunk.hasNoLines = false)
    (hchunk : chunk.WellFormed) :
    ∃ next, parser.endLine chunk.contextMarkerLine = .ok next ∧
      next.InUpdate before path movePath
        (chunks ++ [{ changeContext := chunk.changeContext }]) := by
  have hlines : chunks.getLast?.any (·.hasNoLines) = false := by
    cases hlast : chunks.getLast? with
    | none => rfl
    | some last => exact hcomplete last hlast
  unfold contextMarkerLine
  cases hcontext : chunk.changeContext with
  | none =>
    apply hupdate.endLine rfl (fun _ => rfl)
    unfold processUpdateLine
    have htrim : trimEnd emptyChangeContextMarker = emptyChangeContextMarker := by decide
    have hmarker : isContextMarkerLine emptyChangeContextMarker := by
      decide
    have hmove : moveToMarker.isPrefixOf? emptyChangeContextMarker = none := rfl
    have hnonempty : List.isEmpty emptyChangeContextMarker = false := rfl
    simp [htrim, hmarker, hmove, hnonempty, hlines]
  | some context =>
    obtain ⟨hne, _, hvisible⟩ := hchunk.context context hcontext
    obtain ⟨-, htrim, hcr⟩ := visible_append changeContextMarker hne hvisible
    apply hupdate.endLine (stripSuffixChar_of_ne hcr)
    · intro lineNumber
      rw [htrim]
      rfl
    · have hmarker : isContextMarkerLine (changeContextMarker ++ context) := by
        simp [isContextMarkerLine]
      have hmove : moveToMarker.isPrefixOf? (changeContextMarker ++ context) = none := rfl
      have hnonempty : List.isEmpty (changeContextMarker ++ context) = false := rfl
      have hempty : changeContextMarker ++ context ≠ emptyChangeContextMarker := by
        intro heq
        have hlength := congrArg List.length heq
        simp [changeContextMarker, emptyChangeContextMarker] at hlength
      have hread : changeContextMarker.isPrefixOf?
          (changeContextMarker ++ context) = some context := rfl
      unfold processUpdateLine
      simp [htrim, hmarker, hmove, hnonempty, hlines, hempty, hread]

/-- What a body line adds to a chunk. -/
def applyBodyLine (chunk : UpdateFileChunk) : Text → UpdateFileChunk
  | '-' :: text => chunk.pushOldLine text
  | '+' :: text => chunk.pushNewLine text
  | ' ' :: text => chunk.pushContextLine text
  | _ => chunk

/-- A body line with its sign. -/
def IsSignedLine (line : Text) : Prop :=
  ∃ sign text, line = sign :: text ∧ IsBodyText text ∧ (sign = '-' ∨ sign = '+' ∨ sign = ' ')

theorem InUpdate.endLine_bodyLine
    (hupdate : parser.InUpdate before path movePath (chunks ++ [chunk]))
    (hopen : chunk.isEndOfFile = false) (hline : IsSignedLine line) :
    ∃ next, parser.endLine line = .ok next ∧
      next.InUpdate before path movePath (chunks ++ [applyBodyLine chunk line]) := by
  obtain ⟨sign, text, rfl, htext, hsign⟩ := hline
  have hmarker : NotMarker (trimEnd (sign :: text)) := by
    apply notMarker_trimEnd
    · rcases hsign with rfl | rfl | rfl <;> simp
    · rcases hsign with rfl | rfl | rfl <;> simp
  have hstrip : stripSuffixChar '\r' (sign :: text) = sign :: text := by
    apply htext.strip_cons
    rcases hsign with rfl | rfl | rfl <;> decide
  apply hupdate.endLine hstrip hmarker.readFileHeader_eq_none
  rw [processUpdateLine_of_notMarker hmarker]
  rcases hsign with rfl | rfl | rfl <;>
    simp [hopen, processBodyLine, editLastChunk, applyBodyLine]

theorem applyBodyLine_isEndOfFile (chunk : UpdateFileChunk) (line : Text) :
    (applyBodyLine chunk line).isEndOfFile = chunk.isEndOfFile := by
  unfold applyBodyLine
  split <;> rfl

theorem InUpdate.run_bodyLines (hupdate : parser.InUpdate before path movePath (chunks ++ [chunk]))
    (hopen : chunk.isEndOfFile = false) (hlines : ∀ line ∈ lines, IsSignedLine line) :
    ∃ next, parser.runLines lines = .ok next ∧
      next.InUpdate before path movePath (chunks ++ [lines.foldl applyBodyLine chunk]) := by
  induction lines generalizing parser chunk with
  | nil => exact ⟨parser, rfl, hupdate⟩
  | cons line lines ih =>
    obtain ⟨middle, hmiddle, hupdate'⟩ := hupdate.endLine_bodyLine hopen (hlines line (by simp))
    obtain ⟨next, hnext, hupdate''⟩ := ih hupdate'
      ((applyBodyLine_isEndOfFile chunk line).trans hopen)
      (fun l hl => hlines l (by simp [hl]))
    refine ⟨next, ?_, hupdate''⟩
    rw [runLines_cons, hmiddle, ok_bind, hnext]

/-- The chunk as it stands when its first `oldPos` old and `newPos` new lines
and the pairs `done` have been read. -/
def partialChunk (chunk : UpdateFileChunk) (oldPos newPos : ℕ)
    (done : List (ℕ × ℕ)) : UpdateFileChunk where
  changeContext := chunk.changeContext
  oldLines := chunk.oldLines.take oldPos
  newLines := chunk.newLines.take newPos
  contextLineIndices := done

theorem foldl_applyBodyLine_old (chunk : UpdateFileChunk) (lines : List Text) :
    (lines.map ('-' :: ·)).foldl applyBodyLine chunk =
      { chunk with oldLines := chunk.oldLines ++ lines } := by
  induction lines generalizing chunk with
  | nil => simp
  | cons line lines ih =>
    rw [map_cons, foldl_cons, ih]
    simp [applyBodyLine, pushOldLine]

theorem foldl_applyBodyLine_new (chunk : UpdateFileChunk) (lines : List Text) :
    (lines.map ('+' :: ·)).foldl applyBodyLine chunk =
      { chunk with newLines := chunk.newLines ++ lines } := by
  induction lines generalizing chunk with
  | nil => simp
  | cons line lines ih =>
    rw [map_cons, foldl_cons, ih]
    simp [applyBodyLine, pushNewLine]

theorem take_append_take_drop {α : Type*} (l : List α) {first second : ℕ} (h : first ≤ second) :
    l.take first ++ (l.drop first).take (second - first) = l.take second := by
  rw [← take_add, Nat.add_sub_cancel' h]

/-- The pairs that are still to be read lie behind the given positions. -/
def PairsFrom (chunk : UpdateFileChunk) (oldPos newPos : ℕ) (pairs : List (ℕ × ℕ)) : Prop :=
  pairs.Pairwise (fun first second => first.1 < second.1 ∧ first.2 < second.2) ∧
    ∀ pair ∈ pairs, oldPos ≤ pair.1 ∧ newPos ≤ pair.2 ∧
      pair.1 < chunk.oldLines.length ∧ pair.2 < chunk.newLines.length ∧
      chunk.oldLines[pair.1]? = chunk.newLines[pair.2]?

variable {pairs : List (ℕ × ℕ)}

/-- The printed body gives back both sides of the chunk and its context. -/
theorem foldl_bodyLinesFrom (chunk : UpdateFileChunk) {oldPos newPos : ℕ}
    (hpairs : PairsFrom chunk oldPos newPos pairs) (done : List (ℕ × ℕ)) :
    (chunk.bodyLinesFrom oldPos newPos pairs).foldl applyBodyLine
        (partialChunk chunk oldPos newPos done) =
      { changeContext := chunk.changeContext
        oldLines := chunk.oldLines
        newLines := chunk.newLines
        contextLineIndices := done ++ pairs } := by
  induction pairs generalizing oldPos newPos done with
  | nil =>
    rw [bodyLinesFrom, foldl_append, foldl_applyBodyLine_old, foldl_applyBodyLine_new]
    simp [partialChunk]
  | cons pair pairs ih =>
    obtain ⟨oldIndex, newIndex⟩ := pair
    obtain ⟨hincreasing, hbounds⟩ := hpairs
    obtain ⟨hold, hnew, holdRange, hnewRange, hsame⟩ := hbounds (oldIndex, newIndex) (by simp)
    have hrest : PairsFrom chunk (oldIndex + 1) (newIndex + 1) pairs := by
      refine ⟨(pairwise_cons.mp hincreasing).2, ?_⟩
      intro pair hpair
      have hlt := (pairwise_cons.mp hincreasing).1 pair hpair
      have hbound := hbounds pair (by simp [hpair])
      exact ⟨hlt.1, hlt.2, hbound.2.2⟩
    rw [bodyLinesFrom, foldl_append, foldl_append, foldl_applyBodyLine_old, foldl_applyBodyLine_new]
    have hstep : applyBodyLine
        { partialChunk chunk oldPos newPos done with
          oldLines := chunk.oldLines.take oldPos ++
            (chunk.oldLines.drop oldPos).take (oldIndex - oldPos)
          newLines := chunk.newLines.take newPos ++
            (chunk.newLines.drop newPos).take (newIndex - newPos) }
        (' ' :: chunk.oldLines.getD oldIndex []) =
      partialChunk chunk (oldIndex + 1) (newIndex + 1) (done ++ [(oldIndex, newIndex)]) := by
      have holdText : chunk.oldLines[oldIndex]? = some (chunk.oldLines.getD oldIndex []) := by
        simp [holdRange]
      have hnewText : chunk.newLines[newIndex]? = some (chunk.oldLines.getD oldIndex []) := by
        rw [← hsame, holdText]
      simp only [applyBodyLine, pushContextLine, partialChunk, take_append_take_drop _ hold,
        take_append_take_drop _ hnew, take_add_one, holdText, hnewText]
      simp [Nat.min_eq_left holdRange.le, Nat.min_eq_left hnewRange.le]
    have htail := ih hrest (done ++ [(oldIndex, newIndex)])
    rw [← hstep, append_assoc] at htail
    exact htail

theorem isSignedLine_bodyLinesFrom (hold : ∀ line ∈ chunk.oldLines, IsBodyText line)
    (hnew : ∀ line ∈ chunk.newLines, IsBodyText line) (oldPos newPos : ℕ)
    (hpairs : ∀ pair ∈ pairs, pair.1 < chunk.oldLines.length) :
    ∀ line ∈ chunk.bodyLinesFrom oldPos newPos pairs, IsSignedLine line := by
  induction pairs generalizing oldPos newPos with
  | nil =>
    intro line hmem
    simp only [bodyLinesFrom, mem_append, mem_map] at hmem
    rcases hmem with ⟨text, htext, rfl⟩ | ⟨text, htext, rfl⟩
    · exact ⟨'-', text, rfl, hold text (mem_of_mem_drop htext), by simp⟩
    · exact ⟨'+', text, rfl, hnew text (mem_of_mem_drop htext), by simp⟩
  | cons pair pairs ih =>
    intro line hmem
    simp only [bodyLinesFrom, mem_append, mem_map, mem_cons] at hmem
    rcases hmem with (⟨text, htext, rfl⟩ | ⟨text, htext, rfl⟩) | rfl | hmem
    · exact ⟨'-', text, rfl,
        hold text (mem_of_mem_drop (mem_of_mem_take htext)),
        by simp⟩
    · exact ⟨'+', text, rfl,
        hnew text (mem_of_mem_drop (mem_of_mem_take htext)),
        by simp⟩
    · have hrange := hpairs pair (by simp)
      refine ⟨' ', _, rfl, hold _ ?_, by simp⟩
      simp [hrange]
    · exact ih _ _ (fun p hp => hpairs p (by simp [hp])) line hmem

theorem InUpdate.endLine_eof (hupdate : parser.InUpdate before path movePath (chunks ++ [chunk]))
    (hopen : chunk.isEndOfFile = false) (hlines : chunk.hasNoLines = false) :
    ∃ next, parser.endLine eofMarker = .ok next ∧
      next.InUpdate before path movePath
        (chunks ++ [{ chunk with isEndOfFile := true }]) := by
  apply hupdate.endLine rfl (fun _ => rfl)
  have htrim : trimEnd eofMarker = eofMarker := by decide
  have hempty : eofMarker ≠ emptyChangeContextMarker := by decide
  have hcontext : changeContextMarker.isPrefixOf? eofMarker = none := rfl
  unfold processUpdateLine
  simp [htrim, hempty, hcontext, hopen, hlines, markEndOfFile]

theorem hasNoLines_of_wellFormed (hchunk : chunk.WellFormed) : chunk.hasNoLines = false := by
  unfold hasNoLines
  rcases hchunk.hasLines with h | h <;> simp [h]

/-- A printed chunk is read back behind those before it. -/
theorem InUpdate.run_chunk (hupdate : parser.InUpdate before path movePath chunks)
    (hcomplete : ∀ chunk, chunks.getLast? = some chunk → chunk.hasNoLines = false)
    (hchunk : chunk.WellFormed) :
    ∃ next, parser.runLines chunk.printedLines = .ok next ∧
      next.InUpdate before path movePath (chunks ++ [chunk]) := by
  obtain ⟨opened, hopened, hinside⟩ := hupdate.endLine_contextMarker hcomplete hchunk
  have hpairs : PairsFrom chunk 0 0 chunk.contextLineIndices := by
    refine ⟨hchunk.increasing, ?_⟩
    intro pair hpair
    have hrange := hchunk.inRange pair hpair
    exact ⟨Nat.zero_le _, Nat.zero_le _, hrange.1, hrange.2, hchunk.sameText pair hpair⟩
  have hsigned := isSignedLine_bodyLinesFrom hchunk.oldText hchunk.newText 0 0 (fun pair hpair =>
      (hchunk.inRange pair hpair).1)
  obtain ⟨filled, hfilled, hbody⟩ := hinside.run_bodyLines rfl hsigned
  have hfold := foldl_bodyLinesFrom chunk hpairs []
  simp only [partialChunk, take_zero] at hfold
  rw [hfold] at hbody
  have hbegins : parser.runLines (chunk.contextMarkerLine ::
      chunk.bodyLinesFrom 0 0 chunk.contextLineIndices) = .ok filled := by
    rw [runLines_cons, hopened, ok_bind, hfilled]
  unfold printedLines
  rw [runLines_append, hbegins]
  cases hend : chunk.isEndOfFile with
  | false =>
    refine ⟨filled, by simp, ?_⟩
    rw [← hend] at hbody
    exact hbody
  | true =>
    have hlines := hasNoLines_of_wellFormed hchunk
    obtain ⟨last, hlast, hupdate'⟩ := hbody.endLine_eof rfl (by simpa [hasNoLines] using hlines)
    refine ⟨last, by simp [hlast], ?_⟩
    simpa [← hend] using hupdate'

theorem InUpdate.run_chunks {done : List UpdateFileChunk}
    (hupdate : parser.InUpdate before path movePath done)
    (hcomplete : ∀ chunk, done.getLast? = some chunk → chunk.hasNoLines = false)
    (hchunks : ∀ chunk ∈ chunks, chunk.WellFormed) :
    ∃ next,
      parser.runLines (chunks.flatMap printedLines) = .ok next ∧
      next.InUpdate before path movePath (done ++ chunks) := by
  induction chunks generalizing parser done with
  | nil => exact ⟨parser, rfl, by simpa using hupdate⟩
  | cons chunk chunks ih =>
    have hchunk := hchunks chunk (by simp)
    obtain ⟨middle, hmiddle, hupdate'⟩ := hupdate.run_chunk hcomplete hchunk
    have hcomplete' : ∀ last, (done ++ [chunk]).getLast? = some last → last.hasNoLines = false := by
      intro last hlast
      rw [getLast?_concat, Option.some.injEq] at hlast
      exact hlast ▸ hasNoLines_of_wellFormed hchunk
    obtain ⟨next, hnext, hupdate''⟩ := ih hupdate' hcomplete' (fun c hc => hchunks c (by simp [hc]))
    refine ⟨next, ?_, by simpa using hupdate''⟩
    rw [flatMap_cons, runLines_append, hmiddle, ok_bind, hnext]

/-! ## Whole patches -/

theorem InUpdate.ready (hupdate : parser.InUpdate before path movePath chunks)
    (hne : chunks ≠ []) (hchunks : ∀ chunk ∈ chunks, chunk.WellFormed) :
    parser.Ready (before ++ [.updateFile path movePath chunks]) := by
  obtain ⟨hunkLineNumber, hmode⟩ := hupdate.mode_eq
  refine ⟨by simp [hmode], by simp [hmode], hupdate.hunks_eq, hupdate.environment, ?_⟩
  intro path' movePath' chunks' hlast
  rw [getLast?_concat] at hlast
  cases hlast
  have hlast := getLast?_eq_some_getLast hne
  exact ⟨_, hlast, hasNoLines_of_wellFormed (hchunks _ (getLast_mem hne))⟩

theorem Ready.run_updateFile (hready : parser.Ready hunks) (hpath : IsPathText path)
    (hmove : ∀ destination, movePath = some destination → IsPathText destination)
    (hne : chunks ≠ []) (hchunks : ∀ chunk ∈ chunks, chunk.WellFormed) :
    ∃ next,
      parser.runLines (Hunk.updateFile path movePath chunks).printedLines = .ok next ∧
      next.Ready (hunks ++ [.updateFile path movePath chunks]) := by
  have hline : IsHeaderLine (updateFileMarker ++ path) := isHeaderLine_append hpath rfl rfl rfl
  have hstep := hready.endLine_header hline (show _ = some
    (some (.updateFile path none []), .updateFile (parser.lineNumber + 1)) from rfl)
  have hinside : (parser.takeLine.enterSection (some (.updateFile path none []),
      .updateFile (parser.lineNumber + 1))).InUpdate hunks path none [] := by
    refine ⟨⟨_, rfl⟩, ?_, hready.environment⟩
    simp [enterSection, takeLine, hready.hunks_eq]
  have hmoved : ∃ moved, runLines (parser.takeLine.enterSection
          (some (.updateFile path none []), .updateFile (parser.lineNumber + 1)))
        (movePath.map (moveToMarker ++ ·)).toList = .ok moved ∧
      moved.InUpdate hunks path movePath [] := by
    cases hdestination : movePath with
    | none => exact ⟨_, rfl, hinside⟩
    | some destination =>
      obtain ⟨moved, hmoved, hinside'⟩ := hinside.endLine_moveTo (hmove destination hdestination)
      exact ⟨moved, by simp [hmoved], hinside'⟩
  obtain ⟨moved, hmoved, hinside'⟩ := hmoved
  obtain ⟨next, hnext, hupdate⟩ := hinside'.run_chunks (by simp) hchunks
  refine ⟨next, ?_, hupdate.ready hne hchunks⟩
  rw [Hunk.printedLines, cons_append, runLines_cons, hstep, ok_bind,
    runLines_append, hmoved, ok_bind, hnext]

/-- A printed hunk is read back. -/
theorem Ready.run_hunk (hready : parser.Ready hunks) {hunk : Hunk} (hhunk : hunk.WellFormed) :
    ∃ next, parser.runLines hunk.printedLines = .ok next ∧
      next.Ready (hunks ++ [hunk]) := by
  cases hhunk with
  | addFile hpath hcontents hlines => exact hready.run_addFile hpath hcontents hlines
  | deleteFile hpath => exact hready.run_deleteFile hpath
  | updateFile hpath hmove hne hchunks => exact hready.run_updateFile hpath hmove hne hchunks

/-- Printed hunks are read back in their order. -/
theorem Ready.run_hunks {done : List Hunk}
    (hready : parser.Ready done) (hhunks : ∀ hunk ∈ hunks, hunk.WellFormed) :
    ∃ next, parser.runLines (hunks.flatMap Hunk.printedLines) = .ok next ∧
      next.Ready (done ++ hunks) := by
  induction hunks generalizing parser done with
  | nil => exact ⟨parser, rfl, by simpa using hready⟩
  | cons hunk hunks ih =>
    obtain ⟨middle, hmiddle, hready'⟩ := hready.run_hunk (hhunks hunk (by simp))
    obtain ⟨next, hnext, hready''⟩ := ih hready' (fun h hh => hhunks h (by simp [hh]))
    refine ⟨next, ?_, by simpa using hready''⟩
    rw [flatMap_cons, runLines_append, hmiddle, ok_bind, hnext]

theorem Ready.finishTail (hready : parser.Ready hunks) :
    parser.finishTail endPatchMarker = .ok (parser.takeLine.setMode .endedPatch) := by
  have hcomplete : LastHunkComplete parser.takeLine.state.hunks := hready.hunks_eq ▸ hready.complete
  rw [finishTail_endPatch parser (by decide),
    ensureUpdateHunkIsNotEmpty_of_complete hcomplete, map_ok]

theorem run_beginPatch :
    ∃ started, endLine {} beginPatchMarker = .ok started ∧
      started.Ready [] := by
  refine ⟨_, rfl, ?_⟩
  refine ⟨by decide, by decide, rfl, rfl, ?_⟩
  intro path movePath chunks hlast
  cases hlast

end StreamingPatchParser

/-- Printed lines are fed unchanged: they hold no line feed and lose no
carriage return. -/
structure IsPrintedLine (line : Text) : Prop where
  lf_not_mem : '\n' ∉ line
  strip_eq : stripSuffixChar '\r' line = line

theorem isPrintedLine_append {marker path : Text} (hmarker : '\n' ∉ marker) (hne : path ≠ [])
    (hpath : '\n' ∉ path) (hlast : ∀ c, path.getLast? = some c → isWhitespace c = false) :
    IsPrintedLine (marker ++ path) := by
  constructor
  · simp [hmarker, hpath]
  · exact stripSuffixChar_of_ne (StreamingPatchParser.visible_append marker hne hlast).2.2

theorem isPrintedLine_signed {line : Text} (hline : StreamingPatchParser.IsSignedLine line) :
    IsPrintedLine line := by
  obtain ⟨sign, text, rfl, htext, hsign⟩ := hline
  constructor
  · have hne : '\n' ≠ sign := by
      rcases hsign with rfl | rfl | rfl <;> decide
    simp [hne, htext.lf_not_mem]
  · apply htext.strip_cons
    rcases hsign with rfl | rfl | rfl <;> decide

theorem UpdateFileChunk.WellFormed.isPrintedLine (hchunk : chunk.WellFormed) :
    ∀ line ∈ chunk.printedLines, IsPrintedLine line := by
  intro line hmem
  unfold printedLines at hmem
  simp only [cons_append, mem_cons, mem_append] at hmem
  rcases hmem with rfl | hmem | hmem
  · unfold contextMarkerLine
    cases hcontext : chunk.changeContext with
    | none => exact ⟨by decide, by decide⟩
    | some context =>
      obtain ⟨hne, hlf, hlast⟩ := hchunk.context context hcontext
      exact isPrintedLine_append (by decide) hne hlf hlast
  · exact isPrintedLine_signed (StreamingPatchParser.isSignedLine_bodyLinesFrom hchunk.oldText
        hchunk.newText _ _ (fun pair hpair => (hchunk.inRange pair hpair).1)
        line hmem)
  · split_ifs at hmem with hend
    · rw [mem_singleton] at hmem
      subst hmem
      exact ⟨by decide, by decide⟩
    · cases hmem

theorem Hunk.WellFormed.isPrintedLine {hunk : Hunk} (hhunk : hunk.WellFormed) :
    ∀ line ∈ hunk.printedLines, IsPrintedLine line := by
  cases hhunk with
  | addFile hpath hcontents hlines =>
    intro line hmem
    rcases mem_cons.mp hmem with rfl | hmem
    · exact isPrintedLine_append (by decide) hpath.ne_nil hpath.lf_not_mem
        hpath.last_visible
    · obtain ⟨text, htext, rfl⟩ := mem_map.mp hmem
      exact isPrintedLine_signed ⟨'+', text, rfl, hlines text htext, by simp⟩
  | deleteFile hpath =>
    intro line hmem
    obtain rfl := mem_singleton.mp hmem
    exact isPrintedLine_append (by decide) hpath.ne_nil hpath.lf_not_mem hpath.last_visible
  | updateFile hpath hmove hne hchunks =>
    intro line hmem
    simp only [Hunk.printedLines, cons_append, mem_cons, mem_append, mem_flatMap, Option.mem_toList,
      Option.map_eq_some_iff] at hmem
    rcases hmem with rfl | ⟨destination, hdestination, rfl⟩ | ⟨chunk, hchunk, hline⟩
    · exact isPrintedLine_append (by decide) hpath.ne_nil hpath.lf_not_mem
        hpath.last_visible
    · have hto := hmove destination hdestination
      exact isPrintedLine_append (by decide) hto.ne_nil hto.lf_not_mem hto.last_visible
    · exact (hchunks chunk hchunk).isPrintedLine line hline

open StreamingPatchParser

theorem printPatch_eq (hunks : List Hunk) :
    printPatch hunks =
      unlines (beginPatchMarker :: hunks.flatMap Hunk.printedLines) ++ endPatchMarker :=
  joinLines_concat _ _

/-- Printing well-formed hunks and parsing the text gives the hunks back. -/
theorem parsePatch_printPatch (hhunks : ∀ hunk ∈ hunks, hunk.WellFormed) :
    parsePatch (printPatch hunks) =
      .ok { patch := printPatch hunks, hunks := hunks } := by
  have hprinted : ∀ line ∈ beginPatchMarker ::
      hunks.flatMap Hunk.printedLines, IsPrintedLine line := by
    intro line hmem
    rcases mem_cons.mp hmem with rfl | hmem
    · exact ⟨by decide, by decide⟩
    · obtain ⟨hunk, hhunk, hline⟩ := mem_flatMap.mp hmem
      exact (hhunks hunk hhunk).isPrintedLine line hline
  have hstrip : (beginPatchMarker :: hunks.flatMap Hunk.printedLines).map
      (stripSuffixChar '\r') = beginPatchMarker :: hunks.flatMap Hunk.printedLines := by
    rw [map_congr_left fun line hline => (hprinted line hline).strip_eq, map_id']
  have htrim : trim (printPatch hunks) = printPatch hunks := by
    rw [printPatch_eq]
    apply trim_eq_self
    · intro c hc
      obtain rfl : '*' = c := Option.some.inj hc
      decide
    · intro c hc
      rw [getLast?_append_of_ne_nil _ (by decide)] at hc
      obtain rfl : 'h' = c := Option.some.inj hc
      decide
  have hparse := @parsePatch_unlines_append (beginPatchMarker :: hunks.flatMap Hunk.printedLines)
    endPatchMarker beginPatchMarker
    (fun line hline => (hprinted line hline).lf_not_mem) (by decide)
    (by decide) (by rw [← printPatch_eq, htrim]) (by rw [hstrip]; rfl)
    (by decide)
  rw [hstrip, ← printPatch_eq, if_pos (by decide)] at hparse
  obtain ⟨started, hstarted, hready⟩ := run_beginPatch
  obtain ⟨last, hlast, hready'⟩ := hready.run_hunks hhunks
  have hrun : runText (beginPatchMarker :: hunks.flatMap Hunk.printedLines)
      endPatchMarker = .ok (last.takeLine.setMode .endedPatch) := by
    unfold runText
    rw [runLines_cons, hstarted, ok_bind, hlast, ok_bind, hready'.finishTail]
  rw [hparse, hrun]
  have hhunksEq : last.state.hunks = hunks := by
    simpa using hready'.hunks_eq
  simp [toArgs, setMode, takeLine, hhunksEq, hready'.environment]

/-- Hunks whose contents look like markers. -/
def markerLikeHunks : List Hunk :=
  [.addFile "a".toList "*** End Patch\n".toList,
    .deleteFile "b".toList,
    .updateFile "c".toList (some "d".toList)
      [{ changeContext := some "f()".toList
         oldLines := ["@@".toList, [], "x".toList]
         newLines := ["@@".toList, "y".toList]
         contextLineIndices := [(0, 0)]
         isEndOfFile := true }]]

theorem parsePatch_printPatch_markerLikeHunks :
    parsePatch (printPatch markerLikeHunks) =
      .ok { patch := printPatch markerLikeHunks, hunks := markerLikeHunks } := by
  apply parsePatch_printPatch
  have hpath : ∀ c : Char, isWhitespace c = false → c ≠ '\n' → IsPathText [c] := by
    intro c hvisible hlf
    refine ⟨by simp, by simpa using hlf.symm, ?_, ?_⟩ <;>
      simpa using hvisible
  intro hunk hmem
  simp only [markerLikeHunks, mem_cons, not_mem_nil, or_false] at hmem
  rcases hmem with rfl | rfl | rfl
  · refine .addFile (hpath 'a' (by decide) (by decide)) (by decide) ?_
    intro line hline
    obtain rfl : line = "*** End Patch".toList := by
      simpa [cutLines] using hline
    exact ⟨by decide, by decide⟩
  · exact .deleteFile (hpath 'b' (by decide) (by decide))
  · refine .updateFile (hpath 'c' (by decide) (by decide)) ?_ (by simp) ?_
    · intro destination hdestination
      cases hdestination
      exact hpath 'd' (by decide) (by decide)
    · intro chunk hchunk
      obtain rfl := mem_singleton.mp hchunk
      refine ⟨by simp, by simp, by simp, by simp, ?_, ?_, ?_⟩
      · intro context hcontext
        cases hcontext
        refine ⟨by decide, by decide, fun c hc => ?_⟩
        cases hc
        decide
      · intro line hline
        simp only [mem_cons, not_mem_nil, or_false] at hline
        rcases hline with rfl | rfl | rfl <;> exact ⟨by decide, by decide⟩
      · intro line hline
        simp only [mem_cons, not_mem_nil, or_false] at hline
        rcases hline with rfl | rfl <;> exact ⟨by decide, by decide⟩

end Rexux.ApplyPatch
