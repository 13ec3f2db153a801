import Rexux.ApplyPatch.StreamingParser

/-!
# The batch patch parser

`parsePatch` cuts the trimmed text into lines, checks the two boundary lines
(looking inside a here-document if need be), joins the lines again and feeds
the result to a fresh streaming parser.

The second half describes both parsers by the same recursion over lines:
`runLines` feeds terminated lines one by one, and feeding a text is feeding its
lines and then buffering what follows the last line feed.
-/

namespace Rexux.ApplyPatch

open Foundation StreamingPatchParser List

/-! ## Boundaries -/

/-- The first and last line have to be the markers of a patch. -/
def checkStartAndEndLinesStrict (firstLine lastLine : Option Text) : Except ParseError Unit :=
  match firstLine.map trim, lastLine.map trim with
  | some first, last =>
    if first ≠ beginPatchMarker then
      .error (.invalidPatchError firstLineMessage)
    else if last = some endPatchMarker then .ok ()
    else .error (.invalidPatchError lastLineMessage)
  | none, _ => .error (.invalidPatchError lastLineMessage)

/-- The lines of a patch, if they are enclosed by the markers. -/
def checkPatchBoundariesStrict (lines : List Text) : Except ParseError (List Text) := do
  checkStartAndEndLinesStrict lines.head? lines.getLast?
  return lines

/-- The three ways in which a shell heredoc is opened here. -/
def isHeredocOpening (line : Text) : Bool :=
  line = "<<EOF".toList || line = "<<'EOF'".toList || line = "<<\"EOF\"".toList

/-- The strict check, or the strict check of the lines between the markers of
a here-document of at least four lines. -/
def checkPatchBoundariesLenient (originalLines : List Text) : Except ParseError (List Text) :=
  match checkPatchBoundariesStrict originalLines with
  | .ok lines => .ok lines
  | .error originalParseError =>
    match originalLines.head?, originalLines.getLast? with
    | some first, some last =>
      if isHeredocOpening first && "EOF".toList.isSuffixOf last &&
          4 ≤ originalLines.length then
        checkPatchBoundariesStrict originalLines.tail.dropLast
      else .error originalParseError
    | _, _ => .error originalParseError

/-- What the batch parser returns. -/
structure ApplyPatchArgs where
  patch : Text
  hunks : List Hunk
  workdir : Option Text := none
  environmentId : Option Text := none
  deriving DecidableEq, Repr

/-- The lenient mode takes off a heredoc around the patch. -/
inductive ParseMode where
  | strict
  | lenient
  deriving DecidableEq, Repr

/-- The batch parser: the lines of the patch are fed to the streaming parser. -/
def parsePatchText (patch : Text) (mode : ParseMode) : Except ParseError ApplyPatchArgs := do
  let lines := textLines (trim patch)
  let patchLines ← match mode with
    | .strict => checkPatchBoundariesStrict lines
    | .lenient => checkPatchBoundariesLenient lines
  let patch := joinLines patchLines
  let parser ← pushDelta {} patch
  let parser ← parser.finish
  return {
    patch := patch
    hunks := parser.state.hunks
    environmentId := parser.state.environmentId }

def parseInStrictMode : Bool := false

/-- The parser as it is used, in the lenient mode. -/
def parsePatch (patch : Text) : Except ParseError ApplyPatchArgs :=
  parsePatchText patch (if parseInStrictMode then .strict else .lenient)

variable {lines : List Text}

namespace StreamingPatchParser

/-- The streaming parser, fed with deltas and then finished. -/
def parseDeltas (deltas : List Text) : Except ParseError StreamingPatchParser := do
  let parser ← deltas.foldlM pushDelta {}
  parser.finish

/-! ## Feeding whole lines -/

def takeLine (parser : StreamingPatchParser) : StreamingPatchParser :=
  { parser with lineBuffer := [], lineNumber := parser.lineNumber + 1 }

/-- A line that is complete; one carriage return at its end is dropped. -/
def endLine (parser : StreamingPatchParser) (line : Text) :
    Except ParseError StreamingPatchParser :=
  parser.takeLine.processLine (stripSuffixChar '\r' line)

/-- The streaming parser on complete lines. -/
def runLines (parser : StreamingPatchParser) (lines : List Text) :
    Except ParseError StreamingPatchParser :=
  lines.foldlM endLine parser

section

variable (parser : StreamingPatchParser)
include parser

@[simp] theorem runLines_nil : parser.runLines [] = .ok parser := rfl

@[simp] theorem runLines_cons (line : Text) (lines : List Text) :
    parser.runLines (line :: lines) =
      (parser.endLine line >>= fun next => next.runLines lines) := rfl

theorem runLines_append (before after : List Text) :
    parser.runLines (before ++ after) =
      (parser.runLines before >>= fun next => next.runLines after) := by
  exact foldlM_append

/-- How the text is cut into pieces makes no difference. -/
theorem pushDelta_append (first second : Text) :
    parser.pushDelta (first ++ second) =
      (parser.pushDelta first >>= fun next => next.pushDelta second) := by
  exact foldlM_append

theorem foldlM_pushDelta (deltas : List Text) :
    deltas.foldlM pushDelta parser = parser.pushDelta deltas.flatten := by
  induction deltas generalizing parser with
  | nil => rfl
  | cons delta deltas ih =>
    rw [flatten_cons, pushDelta_append]
    exact bind_congr ih

end

variable {tail : Text}

theorem pushDelta_of_lf_not_mem (parser : StreamingPatchParser) (htail : '\n' ∉ tail) :
    parser.pushDelta tail =
      .ok { parser with lineBuffer := parser.lineBuffer ++ tail } := by
  induction tail generalizing parser with
  | nil => simp [pushDelta]
  | cons c tail ih =>
    have hc : c ≠ '\n' := fun h => htail (by simp [h])
    have hrest : '\n' ∉ tail := fun h => htail (by simp [h])
    have hstep : parser.pushChar c =
        .ok { parser with lineBuffer := parser.lineBuffer ++ [c] } := by
      simp [pushChar, hc]
    have hcons : parser.pushDelta (c :: tail) =
        (parser.pushChar c >>= fun next => next.pushDelta tail) := rfl
    rw [hcons, hstep]
    simpa using ih { parser with lineBuffer := parser.lineBuffer ++ [c] } hrest

variable {line : Text} {parser : StreamingPatchParser}

theorem pushDelta_line (hbuffer : parser.lineBuffer = []) (hline : '\n' ∉ line) (rest : Text) :
    parser.pushDelta (line ++ '\n' :: rest) =
      (parser.endLine line >>= fun next => next.pushDelta rest) := by
  have hfeed :
      ({ parser with lineBuffer := line } : StreamingPatchParser).pushDelta ('\n' :: rest) =
        (parser.endLine line >>= fun next => next.pushDelta rest) := rfl
  rw [pushDelta_append, pushDelta_of_lf_not_mem parser hline, ok_bind, hbuffer, nil_append, hfeed]

/-- Text is parsed line by line; what follows the last line feed waits. -/
theorem pushDelta_unlines_append (hbuffer : parser.lineBuffer = [])
    (hlines : ∀ line ∈ lines, '\n' ∉ line) (htail : '\n' ∉ tail) :
    parser.pushDelta (unlines lines ++ tail) = (parser.runLines lines).map fun next =>
        { next with lineBuffer := tail } := by
  induction lines generalizing parser with
  | nil =>
    rw [unlines_nil, nil_append, pushDelta_of_lf_not_mem parser htail, hbuffer]
    rfl
  | cons line lines ih =>
    have hline : '\n' ∉ line := hlines line (by simp)
    have hrest : ∀ l ∈ lines, '\n' ∉ l := fun l hl => hlines l (by simp [hl])
    rw [unlines_cons, append_assoc, cons_append, pushDelta_line hbuffer hline, runLines_cons]
    cases hend : parser.endLine line with
    | error e => rfl
    | ok next => exact ih (processLine_lineBuffer hend) hrest

/-- The end of the input, with a last line that has no line feed. -/
def finishTail (parser : StreamingPatchParser) (tail : Text) :
    Except ParseError StreamingPatchParser :=
  finish { parser with lineBuffer := tail }

theorem finishTail_endPatch (parser : StreamingPatchParser) (htail : trim tail = endPatchMarker) :
    parser.finishTail tail = (parser.takeLine.ensureUpdateHunkIsNotEmpty endPatchMarker).map
        fun _ => parser.takeLine.setMode .endedPatch := by
  have hne : tail ≠ [] := by
    rintro rfl
    exact absurd htail (by decide)
  simp only [finishTail, finish, hne, htail]
  change (parser.takeLine.ensureUpdateHunkIsNotEmpty endPatchMarker >>= fun _ => _) = _
  cases parser.takeLine.ensureUpdateHunkIsNotEmpty endPatchMarker with
  | error e => rfl
  | ok _ => simp [setMode, takeLine]

/-- A patch has to end in its end marker. -/
theorem finishTail_error (parser : StreamingPatchParser) (hne : tail ≠ [])
    (hlast : ∀ c, tail.getLast? = some c → isWhitespace c = false)
    (htail : trim tail ≠ endPatchMarker) : ∃ e, parser.finishTail tail = .error e := by
  have htrimEnd : trimEnd tail = tail := trimEnd_eq_self hlast
  have hend : trimEnd tail ≠ endPatchMarker := by
    rw [htrimEnd]
    rintro rfl
    exact htail (by decide)
  have hnonempty : trim tail ≠ [] := by
    intro hempty
    obtain ⟨c, hc⟩ := Option.ne_none_iff_exists'.mp (mt getLast?_eq_none_iff.mp hne)
    have hwhite := isWhitespace_of_trim_eq_nil hempty (mem_of_getLast? hc)
    rw [hlast c hc] at hwhite
    cases hwhite
  simp only [finishTail, finish, hne, htail]
  change ∃ e, (parser.takeLine.processLine tail >>= _) = _
  cases hprocess : parser.takeLine.processLine tail with
  | error e => exact ⟨e, rfl⟩
  | ok next =>
    have hmode := processLine_mode_ne_endedPatch hnonempty htail hend hprocess
    exact ⟨_, by rw [ok_bind, if_neg hmode]; rfl⟩

/-- The streaming parser on a text that was cut into lines. -/
def runText (lines : List Text) (tail : Text) : Except ParseError StreamingPatchParser :=
  runLines {} lines >>= fun parser => parser.finishTail tail

/-- The streaming parser on any cutting of a text. -/
theorem parseDeltas_unlines_append {deltas : List Text}
    (hsplit : deltas.flatten = unlines lines ++ tail)
    (hlines : ∀ line ∈ lines, '\n' ∉ line) (htail : '\n' ∉ tail) :
    parseDeltas deltas = runText lines tail := by
  unfold parseDeltas runText
  rw [foldlM_pushDelta, hsplit, pushDelta_unlines_append rfl hlines htail]
  cases runLines {} lines with
  | error | ok => rfl

end StreamingPatchParser

/-! ## The batch parser over lines -/

def StreamingPatchParser.toArgs (patch : Text) (parser : StreamingPatchParser) : ApplyPatchArgs :=
  { patch := patch
    hunks := parser.state.hunks
    environmentId := parser.state.environmentId }

theorem checkPatchBoundariesLenient_of_begin {first last : Text}
    (hfirst : lines.head? = some first) (hlast : lines.getLast? = some last)
    (hbegin : trim first = beginPatchMarker) :
    checkPatchBoundariesLenient lines = if trim last = endPatchMarker then .ok lines
      else .error (.invalidPatchError lastLineMessage) := by
  have hopening : isHeredocOpening first = false := by
    by_contra hopening
    simp only [isHeredocOpening, Bool.not_eq_false, Bool.or_eq_true, decide_eq_true_eq] at hopening
    rcases hopening with (rfl | rfl) | rfl <;>
      exact absurd hbegin (by decide)
  unfold checkPatchBoundariesLenient checkPatchBoundariesStrict checkStartAndEndLinesStrict
  by_cases hend : trim last = endPatchMarker
  · simp [hfirst, hlast, hbegin, hend]
  · simp [hfirst, hlast, hbegin, hend, hopening]

/-- The parser of whole texts, in terms of the same lines. -/
theorem parsePatch_unlines_append {tail first : Text}
    (hlines : ∀ line ∈ lines, '\n' ∉ line) (htail : '\n' ∉ tail) (hne : tail ≠ [])
    (htrim : trim (unlines lines ++ tail) = unlines lines ++ tail)
    (hfirst : (lines.map (stripSuffixChar '\r') ++ [tail]).head? = some first)
    (hbegin : trim first = beginPatchMarker) :
    parsePatch (unlines lines ++ tail) = if trim tail = endPatchMarker then
        (runText (lines.map (stripSuffixChar '\r')) tail).map
          (toArgs (unlines (lines.map (stripSuffixChar '\r')) ++ tail))
      else .error (.invalidPatchError lastLineMessage) := by
  have hstripped : ∀ line ∈ lines.map (stripSuffixChar '\r'), '\n' ∉ line := by
    intro line hmem
    obtain ⟨original, horiginal, rfl⟩ := mem_map.mp hmem
    exact fun h => hlines original horiginal (mem_of_mem_stripSuffixChar h)
  unfold parsePatch parsePatchText runText
  simp only [parseInStrictMode, htrim, Bool.false_eq_true, if_false,
    textLines_unlines_append hlines htail hne]
  have hlast : (lines.map (stripSuffixChar '\r') ++ [tail]).getLast? = some tail := by
    simp
  rw [checkPatchBoundariesLenient_of_begin hfirst hlast hbegin]
  split_ifs with hend
  · rw [ok_bind, joinLines_concat, pushDelta_unlines_append rfl hstripped htail]
    cases runLines {} (lines.map (stripSuffixChar '\r')) with
    | error e => rfl
    | ok parser =>
      simp only [ok_bind]
      change (parser.finishTail tail >>= fun last => _) = _
      cases parser.finishTail tail with
      | error | ok => rfl
  · rfl

end Rexux.ApplyPatch
