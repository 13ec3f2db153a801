import Rexux.Foundation.Outcome
import Rexux.Foundation.Text

/-!
# The streaming patch parser

`StreamingPatchParser` consumes a patch in arbitrary pieces.  It buffers one
line at a time and feeds every completed line to `processLine`, a state
machine with six modes.  Body lines are interpreted before any trimming, while
marker lines are compared after trimming: both ends in the header modes, the
end only inside an update hunk.
-/

namespace Rexux.ApplyPatch

open Foundation

/-! ## Markers -/

def beginPatchMarker : Text := "*** Begin Patch".toList
def endPatchMarker : Text := "*** End Patch".toList
def addFileMarker : Text := "*** Add File: ".toList
def deleteFileMarker : Text := "*** Delete File: ".toList
def updateFileMarker : Text := "*** Update File: ".toList
def moveToMarker : Text := "*** Move to: ".toList
def eofMarker : Text := "*** End of File".toList
def changeContextMarker : Text := "@@ ".toList
def emptyChangeContextMarker : Text := "@@".toList
def environmentIdMarker : Text := "*** Environment ID:".toList

/-- A part of an update: old and new lines below a line of context. -/
structure UpdateFileChunk where
  changeContext : Option Text := none
  oldLines : List Text := []
  newLines : List Text := []
  contextLineIndices : List (ℕ × ℕ) := []
  isEndOfFile : Bool := false
  deriving DecidableEq, Repr

variable (chunk : UpdateFileChunk)

/-- Add a context line to both sides and record the pair of indices, so that
it stays distinguishable from two equal changed lines. -/
def UpdateFileChunk.pushContextLine (line : Text) : UpdateFileChunk :=
  { chunk with
    contextLineIndices := chunk.contextLineIndices ++
      [(chunk.oldLines.length, chunk.newLines.length)]
    oldLines := chunk.oldLines ++ [line]
    newLines := chunk.newLines ++ [line] }

def UpdateFileChunk.pushNewLine (line : Text) : UpdateFileChunk :=
  { chunk with newLines := chunk.newLines ++ [line] }

def UpdateFileChunk.pushOldLine (line : Text) : UpdateFileChunk :=
  { chunk with oldLines := chunk.oldLines ++ [line] }

/-- The chunk has neither old nor new lines yet. -/
def UpdateFileChunk.hasNoLines : Bool :=
  chunk.oldLines.isEmpty && chunk.newLines.isEmpty

/-- What a patch does to one file. -/
inductive Hunk where
  | addFile (path contents : Text)
  | deleteFile (path : Text)
  | updateFile (path : Text) (movePath : Option Text)
      (chunks : List UpdateFileChunk)
  deriving DecidableEq, Repr

/-- The errors of the parser; those of hunks name a line. -/
inductive ParseError where
  | invalidPatchError (message : Text)
  | invalidHunkError (message : Text) (lineNumber : ℕ)
  deriving DecidableEq, Repr

/-- Which part of the patch the next line belongs to. -/
inductive StreamingParserMode where
  | notStarted
  | startedPatch
  | addFile
  | deleteFile
  | updateFile (hunkLineNumber : ℕ)
  | endedPatch
  deriving DecidableEq, Repr

open StreamingParserMode

/-- What has been read so far. -/
structure StreamingParserState where
  mode : StreamingParserMode := .notStarted
  hunks : List Hunk := []
  environmentId : Option Text := none
  deriving DecidableEq, Repr

/-- The parser with the line that is not yet complete. -/
structure StreamingPatchParser where
  lineBuffer : Text := []
  state : StreamingParserState := {}
  lineNumber : ℕ := 0
  deriving DecidableEq, Repr

namespace StreamingPatchParser

variable (parser : StreamingPatchParser)

def setMode (mode : StreamingParserMode) : StreamingPatchParser :=
  { parser with state := { parser.state with mode := mode } }

def pushHunk (hunk : Hunk) : StreamingPatchParser :=
  { parser with state :=
    { parser.state with hunks := parser.state.hunks ++ [hunk] } }

/-- The effect of a write through `hunks.last_mut()`. -/
def replaceLastHunk (hunk : Hunk) : StreamingPatchParser :=
  { parser with state :=
    { parser.state with hunks := parser.state.hunks.dropLast ++ [hunk] } }

/-! ## Error texts -/

def unexpectedUpdateLineMessage (line : Text) : Text :=
  "Unexpected line found in update hunk: '".toList ++ line ++
    ("'. Every line should start with ' ' (context line), " ++
      "'+' (added line), or '-' (removed line)").toList

def expectedContextMarkerMessage (line : Text) : Text :=
  "Expected update hunk to start with a @@ context marker, got: '".toList ++ line ++ "'".toList

def invalidHeaderMessage (trimmed : Text) : Text :=
  "'".toList ++ trimmed ++
    ("' is not a valid hunk header. Valid hunk headers: " ++
      "'*** Add File: \x7bpath\x7d', '*** Delete File: \x7bpath\x7d', " ++
      "'*** Update File: \x7bpath\x7d'").toList

def emptyUpdateHunkMessage (path : Text) : Text :=
  "Update file hunk for path '".toList ++ path ++ "' is empty".toList

def noLinesMessage : Text := "Update hunk does not contain any lines".toList

def firstLineMessage : Text := "The first line of the patch must be '*** Begin Patch'".toList

def lastLineMessage : Text := "The last line of the patch must be '*** End Patch'".toList

def repeatedEnvironmentIdMessage : Text :=
  "apply_patch environment_id cannot be specified more than once".toList

def emptyEnvironmentIdMessage : Text := "apply_patch environment_id cannot be empty".toList

/-- A new header or the end marker may only follow an update hunk that has a
chunk, and whose last chunk has a line. -/
def ensureUpdateHunkIsNotEmpty (line : Text) : Except ParseError Unit :=
  match parser.state.hunks.getLast? with
  | some (.updateFile path _ chunks) =>
    match chunks.getLast?, parser.state.mode with
    | none, .updateFile hunkLineNumber =>
      .error (.invalidHunkError (emptyUpdateHunkMessage path) hunkLineNumber)
    | none, _ => .ok ()
    | some chunk, _ =>
      if chunk.hasNoLines then
        if line = endPatchMarker then
          .error (.invalidHunkError noLinesMessage parser.lineNumber)
        else
          .error (.invalidHunkError (unexpectedUpdateLineMessage line) parser.lineNumber)
      else .ok ()
  | _ => .ok ()

/-- The headers `Add File`, `Delete File`, `Update File` and the end marker.
The result is `none` when the line is none of them. -/
def handleFileHeadersAndEndPatch (trimmed : Text) :
    Except ParseError (Option StreamingPatchParser) := do
  if trimmed = endPatchMarker then
    parser.ensureUpdateHunkIsNotEmpty trimmed
    return some (parser.setMode .endedPatch)
  match addFileMarker.isPrefixOf? trimmed with
  | some path =>
    parser.ensureUpdateHunkIsNotEmpty trimmed
    return some ((parser.pushHunk (.addFile path [])).setMode .addFile)
  | none =>
  match deleteFileMarker.isPrefixOf? trimmed with
  | some path =>
    parser.ensureUpdateHunkIsNotEmpty trimmed
    return some ((parser.pushHunk (.deleteFile path)).setMode .deleteFile)
  | none =>
  match updateFileMarker.isPrefixOf? trimmed with
  | some path =>
    parser.ensureUpdateHunkIsNotEmpty trimmed
    return some ((parser.pushHunk (.updateFile path none [])).setMode
      (.updateFile parser.lineNumber))
  | none => return none

/-- The environment line is a header of the started mode only; every other
mode goes straight to the file headers. -/
def handleHunkHeadersAndEndPatch (trimmed : Text) :
    Except ParseError (Option StreamingPatchParser) :=
  match parser.state.mode, environmentIdMarker.isPrefixOf? trimmed with
  | .startedPatch, some environmentId =>
    if parser.state.environmentId.isSome then
      .error (.invalidPatchError repeatedEnvironmentIdMessage)
    else if trim environmentId = [] then
      .error (.invalidPatchError emptyEnvironmentIdMessage)
    else
      .ok (some { parser with state :=
        { parser.state with environmentId := some (trim environmentId) } })
  | _, _ => parser.handleFileHeadersAndEndPatch trimmed

/-- The line opens a new chunk. -/
def isContextMarkerLine (updateLine : Text) : Bool :=
  updateLine = emptyChangeContextMarker || changeContextMarker.isPrefixOf updateLine

/-- Append to the last chunk, opening an anonymous first chunk if the hunk
has none yet. -/
def editLastChunk (chunks : List UpdateFileChunk)
    (edit : UpdateFileChunk → UpdateFileChunk) : List UpdateFileChunk :=
  match chunks.getLast? with
  | none => [edit {}]
  | some chunk => chunks.dropLast ++ [edit chunk]

/-- The last chunk ends at the end of the file. -/
def markEndOfFile (chunks : List UpdateFileChunk) : List UpdateFileChunk :=
  match chunks.getLast? with
  | none => chunks
  | some chunk => chunks.dropLast ++ [{ chunk with isEndOfFile := true }]

/-- A line of an update: a move path, a marker, or a line of a chunk. -/
def processBodyLine (lineNumber : ℕ) (line : Text)
    (movePath : Option Text) (chunks : List UpdateFileChunk) :
    Except ParseError (Option Text × List UpdateFileChunk) :=
  match line with
  | [] => .ok (movePath, editLastChunk chunks (·.pushContextLine []))
  | ' ' :: text => .ok (movePath, editLastChunk chunks (·.pushContextLine text))
  | '+' :: text => .ok (movePath, editLastChunk chunks (·.pushNewLine text))
  | '-' :: text => .ok (movePath, editLastChunk chunks (·.pushOldLine text))
  | _ =>
    if chunks.getLast?.any (fun chunk => !chunk.hasNoLines) then
      .error (.invalidHunkError (expectedContextMarkerMessage line) lineNumber)
    else
      .error (.invalidHunkError (unexpectedUpdateLineMessage line) lineNumber)

/-- One line inside an update hunk that is not a header of another hunk.  The
result is what the line leaves in the hunk's move path and chunks. -/
def processUpdateLine (lineNumber : ℕ) (line : Text)
    (movePath : Option Text) (chunks : List UpdateFileChunk) :
    Except ParseError (Option Text × List UpdateFileChunk) :=
  let updateLine := trimEnd line
  let lastIsEndOfFile := chunks.getLast?.any (·.isEndOfFile)
  let lastHasNoLines := chunks.getLast?.any (·.hasNoLines)
  if lastIsEndOfFile && updateLine.isEmpty then .ok (movePath, chunks)
  else if lastIsEndOfFile && !isContextMarkerLine updateLine then
    .error (.invalidHunkError (expectedContextMarkerMessage line) lineNumber)
  else
  match chunks.isEmpty && movePath.isNone,
      moveToMarker.isPrefixOf? updateLine with
  | true, some moveToPath => .ok (some moveToPath, chunks)
  | _, _ =>
  if isContextMarkerLine updateLine && lastHasNoLines then
    .error (.invalidHunkError (unexpectedUpdateLineMessage line) lineNumber)
  else if updateLine = emptyChangeContextMarker then
    .ok (movePath, chunks ++ [{}])
  else
  match changeContextMarker.isPrefixOf? updateLine with
  | some changeContext => .ok (movePath, chunks ++ [{ changeContext := some changeContext }])
  | none =>
  if updateLine = eofMarker then
    if lastHasNoLines then
      .error (.invalidHunkError noLinesMessage lineNumber)
    else .ok (movePath, markEndOfFile chunks)
  else processBodyLine lineNumber line movePath chunks

/-- One complete line, by the mode of the parser. -/
def processLine (line : Text) : Except ParseError StreamingPatchParser :=
  let trimmed := trim line
  match parser.state.mode with
  | .notStarted =>
    if trimmed = beginPatchMarker then .ok (parser.setMode .startedPatch)
    else .error (.invalidPatchError firstLineMessage)
  | .startedPatch | .deleteFile => do
      match ← parser.handleHunkHeadersAndEndPatch trimmed with
      | some next => return next
      | none => throw (.invalidHunkError (invalidHeaderMessage trimmed) parser.lineNumber)
  | .addFile => do
      match ← parser.handleHunkHeadersAndEndPatch trimmed with
      | some next => return next
      | none =>
        match line, parser.state.hunks.getLast? with
        | '+' :: lineToAdd, some (.addFile path contents) =>
          return parser.replaceLastHunk (.addFile path (contents ++ lineToAdd ++ ['\n']))
        | _, _ => throw (.invalidHunkError (invalidHeaderMessage trimmed) parser.lineNumber)
  | .updateFile _ => do
      match ← parser.handleHunkHeadersAndEndPatch (trimEnd line) with
      | some next => return next
      | none =>
        match parser.state.hunks.getLast? with
        | some (.updateFile path movePath chunks) => do
            let (movePath, chunks) ← processUpdateLine parser.lineNumber line movePath chunks
            return parser.replaceLastHunk (.updateFile path movePath chunks)
        | _ => throw (.invalidHunkError (unexpectedUpdateLineMessage line) parser.lineNumber)
  | .endedPatch =>
    if trimmed = [] then .ok parser
    else .error (.invalidPatchError lastLineMessage)

/-- A line feed ends the buffered line: one carriage return before it is
dropped and the line is processed. -/
def pushChar (ch : Char) : Except ParseError StreamingPatchParser :=
  if ch = '\n' then
    processLine
      { parser with
        lineBuffer := []
        lineNumber := parser.lineNumber + 1 }
      (stripSuffixChar '\r' parser.lineBuffer)
  else .ok { parser with lineBuffer := parser.lineBuffer ++ [ch] }

/-- A piece of the input, cut anywhere. -/
def pushDelta (delta : Text) : Except ParseError StreamingPatchParser :=
  delta.foldlM pushChar parser

/-- The unterminated last line is not stripped of a carriage return, and the
end marker closes the patch from every mode. -/
def finish : Except ParseError StreamingPatchParser := do
  let parser ←
    if parser.lineBuffer = [] then pure parser
    else
      let line := parser.lineBuffer
      let parser := { parser with
        lineBuffer := [], lineNumber := parser.lineNumber + 1 }
      if trim line = endPatchMarker then do
        parser.ensureUpdateHunkIsNotEmpty (trim line)
        pure (parser.setMode .endedPatch)
      else parser.processLine line
  if parser.state.mode = .endedPatch then return parser
  else throw (.invalidPatchError lastLineMessage)

/-! ## What a processed line can change -/

/-- The hunk and the mode that a header line opens. -/
def readFileHeader (lineNumber : ℕ) (trimmed : Text) : Option (Option Hunk × StreamingParserMode) :=
  if trimmed = endPatchMarker then some (none, .endedPatch)
  else
    ((addFileMarker.isPrefixOf? trimmed).map fun path => (some (Hunk.addFile path []), addFile)) <|>
    ((deleteFileMarker.isPrefixOf? trimmed).map fun path =>
      (some (Hunk.deleteFile path), deleteFile)) <|>
    ((updateFileMarker.isPrefixOf? trimmed).map fun path =>
      (some (Hunk.updateFile path none []), updateFile lineNumber))

def enterSection (opened : Option Hunk × StreamingParserMode) : StreamingPatchParser :=
  { parser with state := { parser.state with
    mode := opened.2
    hunks := parser.state.hunks ++ opened.1.toList } }

theorem handleFileHeadersAndEndPatch_eq (parser : StreamingPatchParser) (trimmed : Text) :
    parser.handleFileHeadersAndEndPatch trimmed =
      match readFileHeader parser.lineNumber trimmed with
      | none => .ok none
      | some opened =>
        parser.ensureUpdateHunkIsNotEmpty trimmed >>= fun _ =>
          .ok (some (parser.enterSection opened)) := by
  unfold handleFileHeadersAndEndPatch readFileHeader
  by_cases hend : trimmed = endPatchMarker
  · simp [hend, enterSection, setMode]
  cases hadd : addFileMarker.isPrefixOf? trimmed with
  | some path => simp [hend, enterSection, setMode, pushHunk]
  | none =>
  cases hdelete : deleteFileMarker.isPrefixOf? trimmed with
  | some path => simp [hend, enterSection, setMode, pushHunk]
  | none =>
  cases hupdate : updateFileMarker.isPrefixOf? trimmed with
  | some path => simp [hend, enterSection, setMode, pushHunk]
  | none => simp [hend]

variable {trimmed : Text}

theorem handleHunkHeadersAndEndPatch_of_not_environment (parser : StreamingPatchParser)
    (h : environmentIdMarker.isPrefixOf? trimmed = none) :
    parser.handleHunkHeadersAndEndPatch trimmed = parser.handleFileHeadersAndEndPatch trimmed := by
  unfold handleHunkHeadersAndEndPatch
  rw [h]
  cases parser.state.mode <;> rfl

variable {next parser : StreamingPatchParser}

/-- A header line names the environment or opens a section. -/
theorem handleHunkHeadersAndEndPatch_some
    (h : parser.handleHunkHeadersAndEndPatch trimmed = .ok (some next)) :
    (∃ environmentId, next = { parser with state :=
        { parser.state with environmentId := some environmentId } }) ∨
      (∃ opened, readFileHeader parser.lineNumber trimmed = some opened ∧
        parser.ensureUpdateHunkIsNotEmpty trimmed = .ok () ∧
        next = parser.enterSection opened) := by
  unfold handleHunkHeadersAndEndPatch at h
  split at h
  · split_ifs at h with hsome hempty
    simp only [Except.ok.injEq, Option.some.injEq] at h
    exact .inl ⟨_, h.symm⟩
  · rw [handleFileHeadersAndEndPatch_eq] at h
    cases hread : readFileHeader parser.lineNumber trimmed with
    | none => simp [hread] at h
    | some opened =>
      rw [hread] at h
      obtain ⟨_, hensure, heq⟩ := bind_eq_ok_iff.mp h
      simp only [Except.ok.injEq, Option.some.injEq] at heq
      exact .inr ⟨opened, rfl, hensure, heq.symm⟩

/-- What an accepted line did: it started the patch, was a header, extended an
added file, edited the update hunk, or was blank after the end. -/
inductive LineStep (parser : StreamingPatchParser) (line : Text) : StreamingPatchParser → Prop
  | beginPatch (hmode : parser.state.mode = .notStarted) :
      LineStep parser line (parser.setMode .startedPatch)
  | header {trimmed : Text} {next : StreamingPatchParser}
      (hmode : parser.state.mode ≠ .endedPatch)
      (htrimmed : trimmed = trim line ∨ trimmed = trimEnd line)
      (hheader : parser.handleHunkHeadersAndEndPatch trimmed =
        .ok (some next)) : LineStep parser line next
  | addLine {path contents text : Text}
      (hmode : parser.state.mode = .addFile) (hline : line = '+' :: text)
      (hlast : parser.state.hunks.getLast? = some (.addFile path contents)) :
      LineStep parser line (parser.replaceLastHunk (.addFile path (contents ++ text ++ ['\n'])))
  | updateLine {hunkLineNumber : ℕ} {path : Text}
      {movePath movePath' : Option Text}
      {chunks chunks' : List UpdateFileChunk}
      (hmode : parser.state.mode = .updateFile hunkLineNumber)
      (hlast : parser.state.hunks.getLast? = some (.updateFile path movePath chunks))
      (hedit : processUpdateLine parser.lineNumber line movePath chunks =
        .ok (movePath', chunks')) :
      LineStep parser line (parser.replaceLastHunk (.updateFile path movePath' chunks'))
  | blank (hline : trim line = []) : LineStep parser line parser

variable {line : Text}

theorem processLine_step (h : parser.processLine line = .ok next) : LineStep parser line next := by
  unfold processLine at h
  split at h
  case h_1 hmode =>
    dsimp only at h
    split_ifs at h with hbegin
    cases h
    exact .beginPatch hmode
  case h_2 hmode =>
    obtain ⟨result, hheader, h⟩ := bind_eq_ok_iff.mp h
    cases result with
    | none => cases h
    | some next =>
      cases h
      exact .header (by simp [hmode]) (.inl rfl) hheader
  case h_3 hmode =>
    obtain ⟨result, hheader, h⟩ := bind_eq_ok_iff.mp h
    cases result with
    | none => cases h
    | some next =>
      cases h
      exact .header (by simp [hmode]) (.inl rfl) hheader
  case h_4 hmode =>
    obtain ⟨result, hheader, h⟩ := bind_eq_ok_iff.mp h
    cases result with
    | some next =>
      cases h
      exact .header (by simp [hmode]) (.inl rfl) hheader
    | none =>
      simp only at h
      split at h
      · cases h
        exact .addLine hmode rfl ‹_›
      · cases h
  case h_5 hmode =>
    obtain ⟨result, hheader, h⟩ := bind_eq_ok_iff.mp h
    cases result with
    | some next =>
      cases h
      exact .header (by simp [hmode]) (.inr rfl) hheader
    | none =>
      simp only at h
      split at h
      · obtain ⟨⟨movePath, chunks⟩, hedit, h⟩ := bind_eq_ok_iff.mp h
        cases h
        exact .updateLine hmode ‹_› hedit
      · cases h
  case h_6 =>
    dsimp only at h
    split_ifs at h with hblank
    cases h
    exact .blank hblank

theorem readFileHeader_endedPatch {lineNumber : ℕ} {opened : Option Hunk × StreamingParserMode}
    (hread : readFileHeader lineNumber trimmed = some opened)
    (hmode : opened.2 = .endedPatch) : trimmed = endPatchMarker := by
  by_contra hne
  rw [readFileHeader, if_neg hne] at hread
  cases hadd : addFileMarker.isPrefixOf? trimmed with
  | some path =>
    simp [hadd] at hread
    cases hread
    cases hmode
  | none =>
  cases hdelete : deleteFileMarker.isPrefixOf? trimmed with
  | some path =>
    simp [hadd, hdelete] at hread
    cases hread
    cases hmode
  | none =>
  cases hupdate : updateFileMarker.isPrefixOf? trimmed with
  | some path =>
    simp [hadd, hdelete, hupdate] at hread
    cases hread
    cases hmode
  | none => simp [hadd, hdelete, hupdate] at hread

/-- Only the end marker ends a patch. -/
theorem processLine_mode_ne_endedPatch (hne : trim line ≠ []) (hend : trim line ≠ endPatchMarker)
    (hend' : trimEnd line ≠ endPatchMarker) (h : parser.processLine line = .ok next) :
    next.state.mode ≠ .endedPatch := by
  cases processLine_step h with
  | beginPatch => simp [setMode]
  | header hmode htrimmed hheader =>
    rcases handleHunkHeadersAndEndPatch_some hheader with ⟨_, rfl⟩ | ⟨opened, hread, _, rfl⟩
    · exact hmode
    · intro hended
      have heq := readFileHeader_endedPatch hread hended
      rcases htrimmed with rfl | rfl
      · exact hend heq
      · exact hend' heq
  | addLine hmode | updateLine hmode => simp [replaceLastHunk, hmode]
  | blank hline => exact absurd hline hne

theorem processLine_lineBuffer (h : parser.processLine line = .ok next) :
    next.lineBuffer = parser.lineBuffer := by
  cases processLine_step h with
  | header _ _ hheader =>
    rcases handleHunkHeadersAndEndPatch_some hheader with ⟨_, rfl⟩ | ⟨_, _, _, rfl⟩ <;> rfl
  | beginPatch | addLine | updateLine | blank => rfl

/-! ## Lines that are no marker -/

/-- A line that is no marker. -/
structure NotMarker (trimmed : Text) : Prop where
  head_ne_asterisk : trimmed.head? ≠ some '*'
  head_ne_at : trimmed.head? ≠ some '@'

section

variable (h : NotMarker trimmed)
include h

theorem NotMarker.ne_of_asterisk {marker : Text}
    (hmarker : marker.head? = some '*') : trimmed ≠ marker := by
  rintro rfl
  exact h.head_ne_asterisk hmarker

theorem NotMarker.readFileHeader_eq_none (lineNumber : ℕ) :
    readFileHeader lineNumber trimmed = none := by
  have hne := h.head_ne_asterisk
  have hend : trimmed ≠ endPatchMarker := h.ne_of_asterisk rfl
  simp [readFileHeader, hend, isPrefixOf?_eq_none_of_head?_ne addFileMarker rfl hne,
    isPrefixOf?_eq_none_of_head?_ne deleteFileMarker rfl hne,
    isPrefixOf?_eq_none_of_head?_ne updateFileMarker rfl hne]

theorem NotMarker.handleHunkHeadersAndEndPatch_eq (parser : StreamingPatchParser) :
    parser.handleHunkHeadersAndEndPatch trimmed = .ok none := by
  rw [handleHunkHeadersAndEndPatch_of_not_environment parser
    (isPrefixOf?_eq_none_of_head?_ne _ rfl h.head_ne_asterisk),
    handleFileHeadersAndEndPatch_eq, h.readFileHeader_eq_none]

theorem NotMarker.isContextMarkerLine_eq : isContextMarkerLine trimmed = false := by
  have hne : trimmed ≠ emptyChangeContextMarker := by
    rintro rfl
    exact h.head_ne_at rfl
  simp [isContextMarkerLine, hne, isPrefixOf_eq_false_of_head?_ne changeContextMarker rfl
      h.head_ne_at]

end

theorem processUpdateLine_of_notMarker (h : NotMarker (trimEnd line)) (lineNumber : ℕ)
    (movePath : Option Text) (chunks : List UpdateFileChunk) :
    processUpdateLine lineNumber line movePath chunks = if chunks.getLast?.any (·.isEndOfFile) then
        if (trimEnd line).isEmpty then .ok (movePath, chunks)
        else .error (.invalidHunkError (expectedContextMarkerMessage line) lineNumber)
      else processBodyLine lineNumber line movePath chunks := by
  have hempty : trimEnd line ≠ emptyChangeContextMarker := by
    intro heq
    exact h.head_ne_at (by rw [heq]; rfl)
  have heof : trimEnd line ≠ eofMarker := h.ne_of_asterisk rfl
  unfold processUpdateLine
  simp only [h.isContextMarkerLine_eq, hempty, heof,
    isPrefixOf?_eq_none_of_head?_ne moveToMarker rfl h.head_ne_asterisk,
    isPrefixOf?_eq_none_of_head?_ne changeContextMarker rfl h.head_ne_at]
  by_cases hend : chunks.getLast?.any (·.isEndOfFile)
  · by_cases hblank : (trimEnd line).isEmpty
    · simp [hend]
    · simp [hend]
  · simp [hend]

theorem notMarker_trimEnd (hasterisk : line.head? ≠ some '*')
    (hat : line.head? ≠ some '@') : NotMarker (trimEnd line) :=
  ⟨fun h => hasterisk (head?_trimEnd h), fun h => hat (head?_trimEnd h)⟩

theorem notMarker_trim_cons {c : Char} (hwhite : isWhitespace c = false) (hasterisk : c ≠ '*')
    (hat : c ≠ '@') (line : Text) : NotMarker (trim (c :: line)) := by
  rw [trim_cons_of_not_whitespace hwhite]
  exact ⟨by simpa using hasterisk, by simpa using hat⟩

end StreamingPatchParser

end Rexux.ApplyPatch
