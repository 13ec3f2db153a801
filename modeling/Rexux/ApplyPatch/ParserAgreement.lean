import Mathlib.Algebra.Order.Ring.Nat
import Rexux.ApplyPatch.Parser

/-!
# Batch and streaming parsing

The two parsers drive one state machine, but the batch parser feeds it lines
that have already lost a carriage return, so a line that ends in two carriage
returns before its line feed reaches the machine in two different forms.

Which branch the machine takes never depends on the text it has stored, only on
how many lines there are and on the flags of the chunks.  The `skeleton` of a
parser keeps exactly that, and `textSize` measures what the skeleton forgets.
A run over stripped lines is followed by means of both: the skeletons stay
equal, and every stored line that was stripped once less makes the streaming
parser's text strictly longer.
-/

namespace Rexux.ApplyPatch

open Foundation List

/-! ## Skeletons -/

namespace UpdateFileChunk

/-- The chunk with its lines emptied. -/
def skeleton (chunk : UpdateFileChunk) : UpdateFileChunk :=
  { chunk with
    oldLines := chunk.oldLines.map fun _ => []
    newLines := chunk.newLines.map fun _ => [] }

/-- The number of characters in the lines of the chunk. -/
def textSize (chunk : UpdateFileChunk) : ℕ :=
  (chunk.oldLines.map List.length).sum + (chunk.newLines.map List.length).sum

variable (chunk : UpdateFileChunk)

@[simp] theorem skeleton_hasNoLines : chunk.skeleton.hasNoLines = chunk.hasNoLines := by
  simp only [skeleton, hasNoLines, isEmpty_map]

@[simp] theorem skeleton_isEndOfFile : chunk.skeleton.isEndOfFile = chunk.isEndOfFile := rfl

@[simp] theorem skeleton_skeleton : chunk.skeleton.skeleton = chunk.skeleton := by
  simp [skeleton]

@[simp] theorem textSize_skeleton : chunk.skeleton.textSize = 0 := by
  simp [skeleton, textSize]

/-- An edit of a chunk that does not look at the text stored in it. -/
structure BlindEdit (edit : UpdateFileChunk → UpdateFileChunk) : Prop where
  skeleton_eq : ∀ chunk, (edit chunk.skeleton).skeleton = (edit chunk).skeleton
  textSize_eq : ∀ chunk, (edit chunk).textSize = chunk.textSize + (edit chunk.skeleton).textSize

theorem blindEdit_pushContextLine (line : Text) : BlindEdit (·.pushContextLine line) := by
  constructor
  · simp [skeleton, pushContextLine]
  · simp [skeleton, pushContextLine, textSize]
    omega

theorem blindEdit_pushNewLine (line : Text) : BlindEdit (·.pushNewLine line) := by
  constructor
  · simp [skeleton, pushNewLine]
  · simp [skeleton, pushNewLine, textSize]
    omega

theorem blindEdit_pushOldLine (line : Text) : BlindEdit (·.pushOldLine line) := by
  constructor
  · simp [skeleton, pushOldLine]
  · simp [skeleton, pushOldLine, textSize]
    omega

theorem blindEdit_markEndOfFile : BlindEdit ({ · with isEndOfFile := true }) := by
  constructor
  · simp [skeleton]
  · simp [skeleton, textSize]

end UpdateFileChunk

def chunksSkeleton (chunks : List UpdateFileChunk) : List UpdateFileChunk :=
  chunks.map UpdateFileChunk.skeleton

def chunksTextSize (chunks : List UpdateFileChunk) : ℕ := (chunks.map UpdateFileChunk.textSize).sum

@[simp] theorem chunksSkeleton_chunksSkeleton (chunks : List UpdateFileChunk) :
    chunksSkeleton (chunksSkeleton chunks) = chunksSkeleton chunks := by
  simp [chunksSkeleton]

@[simp] theorem chunksTextSize_chunksSkeleton (chunks : List UpdateFileChunk) :
    chunksTextSize (chunksSkeleton chunks) = 0 := by
  simp [chunksTextSize, chunksSkeleton, Function.comp_def]

namespace Hunk

/-- The hunk without its text. -/
def skeleton : Hunk → Hunk
  | .addFile path _ => .addFile path []
  | .deleteFile path => .deleteFile path
  | .updateFile path movePath chunks => .updateFile path movePath (chunksSkeleton chunks)

def textSize : Hunk → ℕ
  | .addFile _ contents => contents.length
  | .deleteFile _ => 0
  | .updateFile _ _ chunks => chunksTextSize chunks

@[simp] theorem skeleton_skeleton (hunk : Hunk) : hunk.skeleton.skeleton = hunk.skeleton := by
  cases hunk <;> simp [skeleton]

@[simp] theorem textSize_skeleton (hunk : Hunk) : hunk.skeleton.textSize = 0 := by
  cases hunk <;> simp [skeleton, textSize]

end Hunk

def hunksTextSize (hunks : List Hunk) : ℕ := (hunks.map Hunk.textSize).sum

@[simp] theorem hunksTextSize_append (first second : List Hunk) :
    hunksTextSize (first ++ second) = hunksTextSize first + hunksTextSize second := by
  simp [hunksTextSize]

@[simp] theorem hunksTextSize_skeleton (hunks : List Hunk) :
    hunksTextSize (hunks.map Hunk.skeleton) = 0 := by
  simp [hunksTextSize, Function.comp_def]

variable {parser : StreamingPatchParser} {lines : List Text} {last : StreamingPatchParser}

namespace StreamingPatchParser

open UpdateFileChunk

/-- The parser without the text it has stored. -/
def skeleton (parser : StreamingPatchParser) : StreamingPatchParser :=
  { parser with state :=
    { parser.state with hunks := parser.state.hunks.map Hunk.skeleton } }

def textSize (parser : StreamingPatchParser) : ℕ := hunksTextSize parser.state.hunks

/-- The skeleton of a parser together with the size of its text, counted from
`offset`. -/
def profile (offset : ℕ) (parser : StreamingPatchParser) : StreamingPatchParser × ℕ :=
  (parser.skeleton, offset + parser.textSize)

variable (parser)

@[simp] theorem skeleton_mode :
    parser.skeleton.state.mode = parser.state.mode := rfl

@[simp] theorem skeleton_environmentId :
    parser.skeleton.state.environmentId = parser.state.environmentId := rfl

@[simp] theorem skeleton_lineNumber :
    parser.skeleton.lineNumber = parser.lineNumber := rfl

@[simp] theorem skeleton_hunks :
    parser.skeleton.state.hunks = parser.state.hunks.map Hunk.skeleton := rfl

/-! ## The machine runs on skeletons -/

theorem ensureUpdateHunkIsNotEmpty_skeleton (line : Text) :
    parser.skeleton.ensureUpdateHunkIsNotEmpty line = parser.ensureUpdateHunkIsNotEmpty line := by
  unfold ensureUpdateHunkIsNotEmpty
  simp only [skeleton, getLast?_map]
  cases parser.state.hunks.getLast? with
  | none => rfl
  | some hunk =>
    cases hunk with
    | addFile | deleteFile => rfl
    | updateFile path movePath chunks =>
      simp only [Option.map_some, Hunk.skeleton, chunksSkeleton, getLast?_map]
      cases chunks.getLast? with
      | none => rfl
      | some chunk => simp

theorem profile_enterSection
    (opened : Option Hunk × StreamingParserMode) :
    profile 0 (parser.enterSection opened) =
      profile parser.textSize (parser.skeleton.enterSection opened) := by
  simp [profile, enterSection, skeleton, textSize]

theorem handleHunkHeadersAndEndPatch_profile (trimmed : Text) :
    (parser.handleHunkHeadersAndEndPatch trimmed).map (Option.map (profile 0)) =
      (parser.skeleton.handleHunkHeadersAndEndPatch trimmed).map
        (Option.map (profile parser.textSize)) := by
  have hfile : (parser.handleFileHeadersAndEndPatch trimmed).map (Option.map (profile 0)) =
        (parser.skeleton.handleFileHeadersAndEndPatch trimmed).map
          (Option.map (profile parser.textSize)) := by
    rw [handleFileHeadersAndEndPatch_eq, handleFileHeadersAndEndPatch_eq]
    simp only [ensureUpdateHunkIsNotEmpty_skeleton, skeleton_lineNumber]
    cases readFileHeader parser.lineNumber trimmed with
    | none => rfl
    | some opened =>
      cases parser.ensureUpdateHunkIsNotEmpty trimmed with
      | error e => rfl
      | ok _ => simp [profile_enterSection]
  unfold handleHunkHeadersAndEndPatch
  simp only [skeleton_mode]
  split
  next environmentId _ _ =>
    by_cases hsome : parser.state.environmentId.isSome
    · simp [hsome]
    · by_cases hempty : trim environmentId = []
      · simp [hsome, hempty]
      · simp [hsome, hempty, profile, skeleton, textSize]
  · exact hfile

variable {parser}

section

variable (chunks : List UpdateFileChunk)
include chunks

theorem getLast?_any_chunksSkeleton {t : UpdateFileChunk → Bool}
    (htest : ∀ chunk, t chunk.skeleton = t chunk) :
    (chunksSkeleton chunks).getLast?.any t = chunks.getLast?.any t := by
  rw [chunksSkeleton, getLast?_map]
  cases chunks.getLast? with
  | none => rfl
  | some chunk => exact htest chunk

theorem chunksSkeleton_concat (chunk : UpdateFileChunk) :
    chunksSkeleton (chunks ++ [chunk]) = chunksSkeleton chunks ++ [chunk.skeleton] := by
  simp [chunksSkeleton]

theorem chunksTextSize_concat (chunk : UpdateFileChunk) :
    chunksTextSize (chunks ++ [chunk]) = chunksTextSize chunks + chunk.textSize := by
  simp [chunksTextSize]

end

/-- What is left of the chunks when a carriage return more or less is not seen. -/
def chunksProfile (offset : ℕ) (edited : Option Text × List UpdateFileChunk) :
    Option Text × List UpdateFileChunk × ℕ :=
  (edited.1, chunksSkeleton edited.2, offset + chunksTextSize edited.2)

variable (movePath : Option Text)

theorem chunksProfile_concat (chunks : List UpdateFileChunk)
    (chunk : UpdateFileChunk) :
    chunksProfile 0 (movePath, chunks ++ [chunk]) = chunksProfile (chunksTextSize chunks)
        (movePath, chunksSkeleton chunks ++ [chunk]) := by
  simp [chunksProfile, chunksSkeleton_concat, chunksTextSize_concat]

variable {chunks : List UpdateFileChunk} {edit : UpdateFileChunk → UpdateFileChunk}

theorem chunksProfile_replaceLast
    {chunk : UpdateFileChunk} (hlast : chunks.getLast? = some chunk) (hedit : BlindEdit edit) :
    chunksProfile 0 (movePath, chunks.dropLast ++ [edit chunk]) =
      chunksProfile (chunksTextSize chunks)
        (movePath, (chunksSkeleton chunks).dropLast ++ [edit chunk.skeleton]) := by
  have hchunks := (dropLast_append_getLast? _ hlast).symm
  have hsplit : chunksTextSize chunks = chunksTextSize chunks.dropLast + chunk.textSize := by
    conv_lhs => rw [hchunks]
    rw [chunksTextSize_concat]
  have hdrop : (chunksSkeleton chunks).dropLast = chunksSkeleton chunks.dropLast := by
    simp [chunksSkeleton]
  rw [hdrop]
  simp only [chunksProfile, chunksSkeleton_concat, chunksTextSize_concat,
    chunksSkeleton_chunksSkeleton, chunksTextSize_chunksSkeleton,
    hedit.skeleton_eq chunk, hedit.textSize_eq chunk]
  simp only [Prod.mk.injEq, true_and]
  omega

theorem chunksProfile_editLastChunk (chunks : List UpdateFileChunk) (hedit : BlindEdit edit) :
    chunksProfile 0 (movePath, editLastChunk chunks edit) = chunksProfile (chunksTextSize chunks)
        (movePath, editLastChunk (chunksSkeleton chunks) edit) := by
  unfold editLastChunk
  cases hlast : chunks.getLast? with
  | none =>
    have hnil : chunks = [] := getLast?_eq_none_iff.mp hlast
    simp [hnil, chunksSkeleton, chunksTextSize]
  | some chunk =>
    have hskeletonLast : (chunksSkeleton chunks).getLast? = some chunk.skeleton := by
      simp [chunksSkeleton, hlast]
    rw [hskeletonLast]
    exact chunksProfile_replaceLast movePath hlast hedit

theorem chunksProfile_markEndOfFile (chunks : List UpdateFileChunk) :
    chunksProfile 0 (movePath, markEndOfFile chunks) = chunksProfile (chunksTextSize chunks)
        (movePath, markEndOfFile (chunksSkeleton chunks)) := by
  rcases chunks.eq_nil_or_concat with rfl | ⟨start, chunk, rfl⟩
  · rfl
  · simpa [markEndOfFile, editLastChunk, chunksSkeleton] using chunksProfile_editLastChunk
      movePath (start ++ [chunk]) blindEdit_markEndOfFile

theorem processUpdateLine_profile (lineNumber : ℕ) (line : Text) (movePath : Option Text)
    (chunks : List UpdateFileChunk) :
    (processUpdateLine lineNumber line movePath chunks).map
        (chunksProfile 0) =
      (processUpdateLine lineNumber line movePath (chunksSkeleton chunks)).map
          (chunksProfile (chunksTextSize chunks)) := by
  have hend := getLast?_any_chunksSkeleton chunks UpdateFileChunk.skeleton_isEndOfFile
  have hempty := getLast?_any_chunksSkeleton chunks UpdateFileChunk.skeleton_hasNoLines
  have hlines := getLast?_any_chunksSkeleton chunks (t := fun chunk => !chunk.hasNoLines) (by simp)
  have hnil : (chunksSkeleton chunks).isEmpty = chunks.isEmpty := by
    simp only [chunksSkeleton, isEmpty_map]
  have hself : ∀ movePath : Option Text, chunksProfile 0 (movePath, chunks) =
      chunksProfile (chunksTextSize chunks) (movePath, chunksSkeleton chunks) := by
    simp [chunksProfile]
  unfold processUpdateLine processBodyLine
  simp only [hend, hempty, hlines, hnil]
  by_cases hblank : (chunks.getLast?.any (·.isEndOfFile) && (trimEnd line).isEmpty)
  · simp only [hblank, if_true, map_ok, hself]
  by_cases hcontext : (chunks.getLast?.any (·.isEndOfFile) && !isContextMarkerLine (trimEnd line))
  · simp only [hblank, hcontext, if_true, Bool.false_eq_true, if_false, map_error]
  simp only [hblank, hcontext, Bool.false_eq_true, if_false]
  split
  · simp only [map_ok, hself]
  by_cases hrepeated : (isContextMarkerLine (trimEnd line) && chunks.getLast?.any (·.hasNoLines))
  · simp only [hrepeated, if_true, map_error]
  simp only [hrepeated, Bool.false_eq_true, if_false]
  by_cases hopen : trimEnd line = emptyChangeContextMarker
  · simp only [hopen, if_true, map_ok, chunksProfile_concat]
  simp only [hopen, if_false]
  split
  · simp only [map_ok, chunksProfile_concat]
  by_cases heof : trimEnd line = eofMarker
  · by_cases hnone : chunks.getLast?.any (·.hasNoLines)
    · simp only [heof, hnone, if_true, map_error]
    · simp only [heof, hnone, if_true, Bool.false_eq_true, if_false, map_ok,
        chunksProfile_markEndOfFile]
  simp only [heof, if_false]
  split
  · rw [map_ok, map_ok, chunksProfile_editLastChunk _ _ (blindEdit_pushContextLine _)]
  · rw [map_ok, map_ok, chunksProfile_editLastChunk _ _ (blindEdit_pushContextLine _)]
  · rw [map_ok, map_ok, chunksProfile_editLastChunk _ _ (blindEdit_pushNewLine _)]
  · rw [map_ok, map_ok, chunksProfile_editLastChunk _ _ (blindEdit_pushOldLine _)]
  · by_cases hsome : chunks.getLast?.any (fun chunk => !chunk.hasNoLines)
    · simp only [hsome, if_true, map_error]
    · simp only [hsome, Bool.false_eq_true, if_false, map_error]

theorem profile_replaceLastHunk {hunk edited : Hunk}
    (hlast : parser.state.hunks.getLast? = some hunk) (shadow : Hunk)
    (hskeleton : edited.skeleton = shadow.skeleton)
    (hsize : edited.textSize = hunk.textSize + shadow.textSize) :
    profile 0 (parser.replaceLastHunk edited) =
      profile parser.textSize (parser.skeleton.replaceLastHunk shadow) := by
  have hhunks := (dropLast_append_getLast? _ hlast).symm
  have hsplit : hunksTextSize parser.state.hunks =
      hunksTextSize parser.state.hunks.dropLast + hunk.textSize := by
    conv_lhs => rw [hhunks]
    simp [hunksTextSize]
  have hone : ∀ h : Hunk, hunksTextSize [h] = h.textSize := by
    simp [hunksTextSize]
  have hdrop : ∀ hunks : List Hunk,
      ((hunks.map Hunk.skeleton).dropLast).map Hunk.skeleton =
        hunks.dropLast.map Hunk.skeleton := by
    simp [Function.comp_def]
  have hzero : ∀ hunks : List Hunk, hunksTextSize (hunks.map Hunk.skeleton).dropLast = 0 := by
    intro hunks
    rw [← map_dropLast, hunksTextSize_skeleton]
  simp only [profile, skeleton, replaceLastHunk, textSize, map_append, map_cons,
    hunksTextSize_append, hone, hskeleton, hdrop, hzero]
  simp only [Prod.mk.injEq, true_and]
  omega

variable {movePath : Option Text} {path : Text}

theorem replaceUpdateHunk_profile (parser : StreamingPatchParser)
    (hlast : parser.state.hunks.getLast? = some (.updateFile path movePath chunks)) (line : Text) :
    (processUpdateLine parser.lineNumber line movePath chunks >>= fun edited =>
        Except.ok (parser.replaceLastHunk (.updateFile path edited.1 edited.2))).map (profile 0) =
      (processUpdateLine parser.lineNumber line movePath (chunksSkeleton chunks) >>= fun edited =>
        Except.ok (parser.skeleton.replaceLastHunk (.updateFile path edited.1 edited.2))).map
        (profile parser.textSize) := by
  refine map_bind_congr (processUpdateLine_profile parser.lineNumber line movePath chunks) ?_
  intro edited shadow hprofile
  simp only [chunksProfile, Prod.mk.injEq] at hprofile
  obtain ⟨hmove, hskeleton, hsize⟩ := hprofile
  rw [map_ok, map_ok, profile_replaceLastHunk hlast (.updateFile path shadow.1 shadow.2)]
  · simp [Hunk.skeleton, hmove, hskeleton]
  · simpa [Hunk.textSize] using hsize

theorem replaceAddHunk_profile (parser : StreamingPatchParser) {contents : Text}
    (hlast : parser.state.hunks.getLast? = some (.addFile path contents)) (text : Text) :
    profile 0 (parser.replaceLastHunk (.addFile path (contents ++ text ++ ['\n']))) =
      profile parser.textSize (parser.skeleton.replaceLastHunk
        (.addFile path ([] ++ text ++ ['\n']))) := by
  apply profile_replaceLastHunk hlast
  · rfl
  · simp [Hunk.textSize]

theorem bind_handle_profile (parser : StreamingPatchParser) (trimmed : Text)
    {rest rest' : Option StreamingPatchParser → Except ParseError StreamingPatchParser}
    (hnone : (rest none).map (profile 0) = (rest' none).map (profile parser.textSize))
    (hsome : ∀ next, rest (some next) = .ok next) (hsome' : ∀ next, rest' (some next) = .ok next) :
    (parser.handleHunkHeadersAndEndPatch trimmed >>= rest).map (profile 0) =
      (parser.skeleton.handleHunkHeadersAndEndPatch trimmed >>= rest').map
        (profile parser.textSize) := by
  refine map_bind_congr (handleHunkHeadersAndEndPatch_profile parser trimmed) ?_
  rintro (_ | next) (_ | shadow) heq
  · exact hnone
  · cases heq
  · cases heq
  · simpa [hsome, hsome'] using heq

/-- What a line does depends only on the skeleton, and the text grows by the same amount. -/
theorem processLine_profile (parser : StreamingPatchParser) (line : Text) :
    (parser.processLine line).map (profile 0) =
      (parser.skeleton.processLine line).map (profile parser.textSize) := by
  unfold processLine
  simp only [skeleton_mode]
  cases hmode : parser.state.mode with
  | notStarted =>
    by_cases hbegin : trim line = beginPatchMarker
    · simp [hbegin, setMode, profile, skeleton, textSize]
    · simp [hbegin]
  | startedPatch | deleteFile =>
    exact bind_handle_profile parser (trim line) rfl (fun _ => rfl) fun _ => rfl
  | addFile =>
    refine bind_handle_profile parser (trim line) ?_ (fun _ => rfl) fun _ => rfl
    simp only [skeleton_hunks, getLast?_map]
    cases hlast : parser.state.hunks.getLast? with
    | none => simp
    | some hunk =>
      cases hunk with
      | deleteFile | updateFile => simp [Hunk.skeleton]
      | addFile path contents =>
        simp only [Option.map_some, Hunk.skeleton]
        split
        next heq =>
          cases heq
          simp only [pure_eq_ok, map_ok, replaceAddHunk_profile parser hlast]
        next hother =>
          split
          · exact (hother _ _ _ rfl rfl).elim
          · rfl
  | updateFile hunkLineNumber =>
    refine bind_handle_profile parser (trimEnd line) ?_ (fun _ => rfl) fun _ => rfl
    simp only [skeleton_hunks, getLast?_map]
    cases hlast : parser.state.hunks.getLast? with
    | none => simp
    | some hunk =>
      cases hunk with
      | addFile | deleteFile => simp [Hunk.skeleton]
      | updateFile path movePath chunks => exact replaceUpdateHunk_profile parser hlast line
  | endedPatch =>
    by_cases hblank : trim line = []
    · simp [hblank, profile, skeleton, textSize]
    · simp [hblank]

/-! ## Lines that end in a carriage return -/

theorem processUpdateLine_toOption_congr
    {first second : Text} (htrim : trimEnd first = trimEnd second)
    (lineNumber : ℕ) (movePath : Option Text) (chunks : List UpdateFileChunk)
    (hbody : (chunks.getLast?.any (·.isEndOfFile) && (trimEnd second).isEmpty) = false →
      (processBodyLine lineNumber first movePath chunks).toOption =
        (processBodyLine lineNumber second movePath chunks).toOption) :
    (processUpdateLine lineNumber first movePath chunks).toOption =
      (processUpdateLine lineNumber second movePath chunks).toOption := by
  unfold processUpdateLine
  simp only [htrim]
  by_cases hblank : (chunks.getLast?.any (·.isEndOfFile) && (trimEnd second).isEmpty)
  · simp only [hblank, if_true]
  by_cases hcontext : (chunks.getLast?.any (·.isEndOfFile) && !isContextMarkerLine (trimEnd second))
  · simp only [hblank, hcontext, if_true, Bool.false_eq_true, if_false, Except.toOption]
  simp only [hblank, hcontext, Bool.false_eq_true, if_false]
  split
  · rfl
  by_cases hrepeated : (isContextMarkerLine (trimEnd second) && chunks.getLast?.any (·.hasNoLines))
  · simp only [hrepeated, if_true, Except.toOption]
  simp only [hrepeated, Bool.false_eq_true, if_false]
  by_cases hopen : trimEnd second = emptyChangeContextMarker
  · simp only [hopen, if_true]
  simp only [hopen, if_false]
  split
  · rfl
  by_cases heof : trimEnd second = eofMarker
  · simp only [heof, if_true]
  · simpa only [heof, if_false] using hbody (by simpa using hblank)

/-- The line would be stored in the last hunk: an added line of a new file, or
a context, added or removed line of an update. -/
def isBodyLine (parser : StreamingPatchParser) (line : Text) : Bool :=
  match parser.state.mode, parser.state.hunks.getLast? with
  | .addFile, _ => line.head? = some '+'
  | .updateFile _, some (.updateFile _ _ chunks) =>
    !(chunks.getLast?.any (·.isEndOfFile) && (trimEnd line).isEmpty) &&
      (line.isEmpty || line.head? = some ' ' || line.head? = some '+' || line.head? = some '-')
  | _, _ => false

theorem processBodyLine_toOption_eq_none
    {line : Text} (hnil : line ≠ []) (hspace : line.head? ≠ some ' ')
    (hplus : line.head? ≠ some '+') (hminus : line.head? ≠ some '-')
    (lineNumber : ℕ) (movePath : Option Text) (chunks : List UpdateFileChunk) :
    (processBodyLine lineNumber line movePath chunks).toOption = none := by
  unfold processBodyLine
  split
  · exact absurd rfl hnil
  · exact absurd rfl hspace
  · exact absurd rfl hplus
  · exact absurd rfl hminus
  · split_ifs <;> rfl

variable {line : Text}

/-- A carriage return makes no difference outside of the body of a hunk. -/
theorem processLine_toOption_concat_cr (parser : StreamingPatchParser)
    (hbody : parser.isBodyLine line = false) :
    (parser.processLine (line ++ ['\r'])).toOption = (parser.processLine line).toOption := by
  have htrimEnd := trimEnd_append_whitespace line isWhitespace_cr
  unfold processLine
  simp only [trim_append_whitespace line isWhitespace_cr, htrimEnd]
  cases hmode : parser.state.mode with
  | notStarted | startedPatch | deleteFile | endedPatch => rfl
  | addFile =>
    have hhead : line.head? ≠ some '+' := by
      simpa [isBodyLine, hmode] using hbody
    have hhead' : (line ++ ['\r']).head? ≠ some '+' := by
      cases line with
      | nil => decide
      | cons c line => simpa using hhead
    congr 1
    apply bind_congr
    intro result
    cases result with
    | some next => rfl
    | none =>
      simp only
      split
      next heq _ => exact absurd (by rw [heq]; rfl) hhead'
      · split
        · exact absurd rfl hhead
        · rfl
  | updateFile hunkLineNumber =>
      cases parser.handleHunkHeadersAndEndPatch (trimEnd line) with
      | error e => rfl
      | ok result =>
      cases result with
      | some next => rfl
      | none =>
      simp only [ok_bind]
      cases hlast : parser.state.hunks.getLast? with
      | none => rfl
      | some hunk =>
      cases hunk with
      | addFile | deleteFile => rfl
      | updateFile path movePath chunks =>
        refine toOption_bind_congr ?_ _
        refine processUpdateLine_toOption_congr htrimEnd _ _ _ ?_
        intro hblank
        simp only [isBodyLine, hmode, hlast, hblank, Bool.not_false, Bool.true_and,
          Bool.or_eq_false_iff, decide_eq_false_iff_not, isEmpty_eq_false_iff] at hbody
        obtain ⟨⟨⟨hnil, hspace⟩, hplus⟩, hminus⟩ := hbody
        have hhead : (line ++ ['\r']).head? = line.head? := head?_append_of_ne_nil _ hnil
        rw [processBodyLine_toOption_eq_none hnil hspace hplus hminus,
          processBodyLine_toOption_eq_none (by simp) (hhead ▸ hspace)
            (hhead ▸ hplus) (hhead ▸ hminus)]

/-- The first parser stores the same lines as the second, but less text. -/
structure ShorterText (short long : StreamingPatchParser) : Prop where
  skeleton_eq : short.skeleton = long.skeleton
  textSize_lt : short.textSize < long.textSize

theorem shorterText_replaceLastHunk (parser : StreamingPatchParser) {short long : Hunk}
    (hskeleton : short.skeleton = long.skeleton) (hsize : short.textSize < long.textSize) :
    ShorterText (parser.replaceLastHunk short) (parser.replaceLastHunk long) := by
  constructor
  · simp [skeleton, replaceLastHunk, hskeleton]
  · simpa [textSize, replaceLastHunk, hunksTextSize] using hsize

theorem editLastChunk_shorter (chunks : List UpdateFileChunk)
    (short long : UpdateFileChunk → UpdateFileChunk)
    (hskeleton : ∀ chunk, (short chunk).skeleton = (long chunk).skeleton)
    (hsize : ∀ chunk, (short chunk).textSize < (long chunk).textSize) :
    chunksSkeleton (editLastChunk chunks short) = chunksSkeleton (editLastChunk chunks long) ∧
      chunksTextSize (editLastChunk chunks short) < chunksTextSize (editLastChunk chunks long) := by
  unfold editLastChunk
  cases chunks.getLast? with
  | none => simp [chunksSkeleton, chunksTextSize, hskeleton, hsize]
  | some chunk =>
    simp only [chunksSkeleton_concat, chunksTextSize_concat, hskeleton, true_and]
    have := hsize chunk
    omega

theorem processBodyLine_concat_cr {lineNumber : ℕ} {long : Option Text × List UpdateFileChunk}
    (h : processBodyLine lineNumber (line ++ ['\r']) movePath chunks = .ok long) :
    ∃ short, processBodyLine lineNumber line movePath chunks = .ok short ∧
      short.1 = long.1 ∧ chunksSkeleton short.2 = chunksSkeleton long.2 ∧
      chunksTextSize short.2 < chunksTextSize long.2 := by
  cases line with
  | nil =>
    have hnone := @processBodyLine_toOption_eq_none ['\r']
      (by decide) (by decide) (by decide) (by decide) lineNumber movePath
      chunks
    rw [nil_append] at h
    simp [h, Except.toOption] at hnone
  | cons c text =>
    unfold processBodyLine at h ⊢
    split at h
    next heq => cases heq
    next heq =>
      cases heq
      cases h
      have hshort := editLastChunk_shorter chunks
        (·.pushContextLine text) (·.pushContextLine (text ++ ['\r']))
        (by simp [UpdateFileChunk.skeleton, pushContextLine])
        (by
          simp [UpdateFileChunk.textSize, pushContextLine]
          omega)
      exact ⟨_, rfl, rfl, hshort⟩
    next heq =>
      cases heq
      cases h
      have hshort := editLastChunk_shorter chunks
        (·.pushNewLine text) (·.pushNewLine (text ++ ['\r']))
        (by simp [UpdateFileChunk.skeleton, pushNewLine])
        (by simp [UpdateFileChunk.textSize, pushNewLine])
      exact ⟨_, rfl, rfl, hshort⟩
    next heq =>
      cases heq
      cases h
      have hshort := editLastChunk_shorter chunks
        (·.pushOldLine text) (·.pushOldLine (text ++ ['\r']))
        (by simp [UpdateFileChunk.skeleton, pushOldLine])
        (by simp [UpdateFileChunk.textSize, pushOldLine])
      exact ⟨_, rfl, rfl, hshort⟩
    · split_ifs at h

/-- In the body of a hunk the carriage return is stored. -/
theorem processLine_concat_cr_of_isBodyLine
    (parser : StreamingPatchParser) {long : StreamingPatchParser}
    (hbody : parser.isBodyLine line) (h : parser.processLine (line ++ ['\r']) = .ok long) :
    ∃ short, parser.processLine line = .ok short ∧ ShorterText short long := by
  have htrimEnd := trimEnd_append_whitespace line isWhitespace_cr
  unfold processLine at h ⊢
  simp only [trim_append_whitespace line isWhitespace_cr, htrimEnd] at h
  unfold isBodyLine at hbody
  split at hbody
  next hmode =>
    cases line with
    | nil => simp at hbody
    | cons c text =>
      obtain rfl : c = '+' := by simpa using hbody
      have hmarker := notMarker_trim_cons (c := '+') (by decide) (by decide) (by decide) text
      simp only [hmode, hmarker.handleHunkHeadersAndEndPatch_eq, ok_bind, cons_append] at h ⊢
      cases hlast : parser.state.hunks.getLast? with
      | none => simp [hlast] at h
      | some hunk =>
        cases hunk with
        | deleteFile | updateFile => simp [hlast] at h
        | addFile path contents =>
          simp only [hlast, pure_eq_ok, Except.ok.injEq] at h
          subst h
          refine ⟨_, rfl, shorterText_replaceLastHunk parser rfl ?_⟩
          simp [Hunk.textSize]
  next hmode hlast =>
    simp only [Bool.and_eq_true, Bool.or_eq_true, decide_eq_true_eq, List.isEmpty_iff] at hbody
    obtain ⟨hblank, hhead⟩ := hbody
    have hmarker : NotMarker (trimEnd line) := by
      apply notMarker_trimEnd
      all_goals
        rcases hhead with ((rfl | hhead) | hhead) | hhead
        · decide
        all_goals simp [hhead]
    simp only [hmode, hlast, hmarker.handleHunkHeadersAndEndPatch_eq, ok_bind] at h ⊢
    obtain ⟨long, hlong, h⟩ := bind_eq_ok_iff.mp h
    cases h
    have hmarker' : NotMarker (trimEnd (line ++ ['\r'])) := htrimEnd ▸ hmarker
    rw [processUpdateLine_of_notMarker hmarker', htrimEnd] at hlong
    rw [processUpdateLine_of_notMarker hmarker]
    split_ifs at hlong with hend hempty
    · simp [hend, hempty] at hblank
    · obtain ⟨short, hshort, hmove, hskeleton, hsize⟩ := processBodyLine_concat_cr hlong
      rw [if_neg hend, hshort]
      refine ⟨_, rfl, shorterText_replaceLastHunk parser ?_ hsize⟩
      simp [Hunk.skeleton, hmove, hskeleton]
  · cases hbody

variable {first : StreamingPatchParser} {next second : StreamingPatchParser}

theorem processLine_of_skeleton_eq
    (hskeleton : first.skeleton = second.skeleton) (h : first.processLine line = .ok next) :
    ∃ other, second.processLine line = .ok other ∧
      other.skeleton = next.skeleton ∧
      other.textSize + first.textSize = next.textSize + second.textSize := by
  have hfirst := processLine_profile first line
  have hsecond := processLine_profile second line
  rw [← hskeleton] at hsecond
  rw [h] at hfirst
  cases hshadow : first.skeleton.processLine line with
  | error e => simp [hshadow] at hfirst
  | ok shadow =>
    rw [hshadow] at hfirst hsecond
    cases hother : second.processLine line with
    | error e => simp [hother] at hsecond
    | ok other =>
      simp only [hother, map_ok, Except.ok.injEq, profile, Prod.mk.injEq] at hfirst hsecond
      refine ⟨other, rfl, hsecond.1.trans hfirst.1.symm, ?_⟩
      omega

/-- No line of the run is stored with a carriage return at its end. -/
def StoresNoReturn : StreamingPatchParser → List Text → Prop
  | _, [] => True
  | parser, line :: lines =>
    ((stripSuffixChar '\r' line).getLast? = some '\r' →
      parser.isBodyLine (stripSuffixChar '\r' (stripSuffixChar '\r' line)) = false) ∧
    ∀ next, parser.endLine line = .ok next → next.StoresNoReturn lines

theorem endLine_strip_toOption
    (hstore : (stripSuffixChar '\r' line).getLast? = some '\r' → parser.isBodyLine
        (stripSuffixChar '\r' (stripSuffixChar '\r' line)) = false) :
    (parser.endLine (stripSuffixChar '\r' line)).toOption = (parser.endLine line).toOption := by
  unfold endLine
  by_cases hlast : (stripSuffixChar '\r' line).getLast? = some '\r'
  · have hbody := hstore hlast
    have hline := (dropLast_append_getLast? _ hlast).symm
    rw [hline, stripSuffixChar_concat] at hbody ⊢
    exact (processLine_toOption_concat_cr parser.takeLine hbody).symm
  · rw [stripSuffixChar_of_ne hlast]

/-- Without stored carriage returns, stripping the lines first changes nothing. -/
theorem runLines_strip_toOption (hstore : parser.StoresNoReturn lines) :
    (parser.runLines (lines.map (stripSuffixChar '\r'))).toOption =
      (parser.runLines lines).toOption := by
  induction lines generalizing parser with
  | nil => rfl
  | cons line lines ih =>
    obtain ⟨hline, hrest⟩ := hstore
    rw [map_cons, runLines_cons, runLines_cons, toOption_bind_congr (endLine_strip_toOption hline)]
    cases hend : parser.endLine line with
    | error e => rfl
    | ok next => exact ih (hrest next hend)

theorem skeleton_takeLine (parser : StreamingPatchParser) :
    parser.takeLine.skeleton = parser.skeleton.takeLine := rfl

theorem endLine_strip_of_skeleton_eq
    (hskeleton : first.skeleton = second.skeleton) (h : first.endLine line = .ok next) :
    ∃ other, second.endLine (stripSuffixChar '\r' line) = .ok other ∧
      other.skeleton = next.skeleton ∧
      other.textSize + first.textSize ≤ next.textSize + second.textSize ∧
      ((stripSuffixChar '\r' line).getLast? = some '\r' →
        first.isBodyLine
          (stripSuffixChar '\r' (stripSuffixChar '\r' line)) →
        other.textSize + first.textSize <
          next.textSize + second.textSize) := by
  have hskeleton' : first.takeLine.skeleton = second.takeLine.skeleton := by
    rw [skeleton_takeLine, skeleton_takeLine, hskeleton]
  have hsize : ∀ parser : StreamingPatchParser,
      parser.takeLine.textSize = parser.textSize := fun _ => rfl
  unfold endLine at h ⊢
  by_cases hlast : (stripSuffixChar '\r' line).getLast? = some '\r'
  · have hline := (dropLast_append_getLast? _ hlast).symm
    rw [hline, stripSuffixChar_concat]
    rw [hline] at h
    cases hbody : first.isBodyLine (stripSuffixChar '\r' line).dropLast with
    | false =>
      have hoption := processLine_toOption_concat_cr first.takeLine hbody
      rw [h] at hoption
      have hshort := toOption_eq_some_iff.mp hoption.symm
      obtain ⟨other, hother, hskel, hgrow⟩ := processLine_of_skeleton_eq hskeleton' hshort
      exact ⟨other, hother, hskel, hgrow.le, by simp⟩
    | true =>
      obtain ⟨short, hshort, hshorter⟩ := processLine_concat_cr_of_isBodyLine first.takeLine hbody h
      obtain ⟨other, hother, hskel, hgrow⟩ := processLine_of_skeleton_eq hskeleton' hshort
      rw [hsize, hsize] at hgrow
      have hlt := hshorter.textSize_lt
      exact ⟨other, hother, hskel.trans hshorter.skeleton_eq, by omega, fun _ _ => by omega⟩
  · rw [stripSuffixChar_of_ne hlast]
    obtain ⟨other, hother, hskel, hgrow⟩ := processLine_of_skeleton_eq hskeleton' h
    exact ⟨other, hother, hskel, hgrow.le, fun hcr => absurd hcr hlast⟩

theorem runLines_strip_of_skeleton_eq (second : StreamingPatchParser)
    (hskeleton : first.skeleton = second.skeleton) (h : first.runLines lines = .ok last) :
    ∃ other, second.runLines (lines.map (stripSuffixChar '\r')) = .ok other ∧
      other.skeleton = last.skeleton ∧
      other.textSize + first.textSize ≤ last.textSize + second.textSize ∧
      (¬ first.StoresNoReturn lines →
        other.textSize + first.textSize < last.textSize + second.textSize) := by
  induction lines generalizing first second with
  | nil =>
    cases h
    refine ⟨second, rfl, hskeleton.symm, by omega, ?_⟩
    intro hstore
    exact absurd trivial hstore
  | cons line lines ih =>
    obtain ⟨next, hnext, hrun⟩ := bind_eq_ok_iff.mp h
    obtain ⟨shadow, hshadow, hskel, hgrow, hstrict⟩ := endLine_strip_of_skeleton_eq hskeleton hnext
    obtain ⟨other, hother, hskel', hgrow', hstrict'⟩ := ih _ hskel.symm hrun
    refine ⟨other, ?_, hskel', by omega, ?_⟩
    · rw [map_cons, runLines_cons, hshadow, ok_bind, hother]
    · intro hstore
      by_cases hrest : next.StoresNoReturn lines
      · have hline : (stripSuffixChar '\r' line).getLast? = some '\r' ∧
            first.isBodyLine (stripSuffixChar '\r' (stripSuffixChar '\r' line)) := by
          by_contra hline
          refine hstore ⟨?_, ?_⟩
          · intro hcr
            by_contra hbody
            exact hline ⟨hcr, by simpa using hbody⟩
          · intro next' hnext'
            rw [hnext] at hnext'
            cases hnext'
            exact hrest
        have hlt := hstrict hline.1 hline.2
        omega
      · have hlt := hstrict' hrest
        omega

end StreamingPatchParser

open StreamingPatchParser

/-! ## Agreement -/

/-- Both parsers fail, or both accept the same hunks. -/
def OutcomesAgree (batch : Except ParseError ApplyPatchArgs)
    (stream : Except ParseError StreamingPatchParser) : Prop :=
  match batch, stream with
  | .ok args, .ok parser =>
    args.hunks = parser.state.hunks ∧ args.environmentId = parser.state.environmentId
  | .error _, .error _ => True
  | _, _ => False

/-- The batch parser on the text and the streaming parser on the deltas agree. -/
def ParsersAgree (text : Text) (deltas : List Text) : Prop :=
  OutcomesAgree (parsePatch text) (parseDeltas deltas)

instance (batch : Except ParseError ApplyPatchArgs)
    (stream : Except ParseError StreamingPatchParser) : Decidable (OutcomesAgree batch stream) := by
  unfold OutcomesAgree
  split <;> infer_instance

instance (text : Text) (deltas : List Text) : Decidable (ParsersAgree text deltas) :=
  inferInstanceAs (Decidable (OutcomesAgree _ _))

variable {tail : Text}

theorem finishTail_endPatch_eq_ok_iff (htail : trim tail = endPatchMarker) :
    parser.finishTail tail = .ok last ↔
      parser.takeLine.ensureUpdateHunkIsNotEmpty endPatchMarker = .ok () ∧
        last = parser.takeLine.setMode .endedPatch := by
  rw [finishTail_endPatch parser htail]
  cases parser.takeLine.ensureUpdateHunkIsNotEmpty endPatchMarker with
  | error e => simp
  | ok _ => simp [eq_comm]

theorem finishTail_of_skeleton_eq {first second : StreamingPatchParser}
    (htail : trim tail = endPatchMarker) (hskeleton : first.skeleton = second.skeleton)
    (h : first.finishTail tail = .ok last) :
    second.finishTail tail = .ok (second.takeLine.setMode .endedPatch) := by
  rw [finishTail_endPatch_eq_ok_iff htail] at h ⊢
  have heq : first.takeLine.skeleton = second.takeLine.skeleton := by
    rw [skeleton_takeLine, skeleton_takeLine, hskeleton]
  rw [← ensureUpdateHunkIsNotEmpty_skeleton, ← heq, ensureUpdateHunkIsNotEmpty_skeleton]
  exact ⟨h.1, rfl⟩

theorem runText_agree_of_storesNoReturn (hstore : StoresNoReturn {} lines) (tail patch : Text) :
    OutcomesAgree ((runText (lines.map (stripSuffixChar '\r')) tail).map (toArgs patch))
      (runText lines tail) := by
  have hoption : (runText (lines.map (stripSuffixChar '\r')) tail).toOption =
      (runText lines tail).toOption :=
    toOption_bind_congr (runLines_strip_toOption hstore) (fun parser => parser.finishTail tail)
  cases hbatch : runText (lines.map (stripSuffixChar '\r')) tail with
  | error e =>
    cases hstream : runText lines tail with
    | error e' => trivial
    | ok parser => simp [hbatch, hstream, Except.toOption] at hoption
  | ok parser =>
    rw [hbatch] at hoption
    rw [toOption_eq_some_iff.mp hoption.symm]
    exact ⟨rfl, rfl⟩

theorem runText_strip_of_ok (htail : trim tail = endPatchMarker)
    (h : runText lines tail = .ok parser) :
    ∃ other, runText (lines.map (stripSuffixChar '\r')) tail = .ok other ∧
      (¬ StoresNoReturn {} lines → other.textSize < parser.textSize) := by
  obtain ⟨last, hrun, hfinish⟩ := bind_eq_ok_iff.mp h
  obtain ⟨other, hother, hskeleton, _, hstrict⟩ := runLines_strip_of_skeleton_eq {} rfl hrun
  have hother' := finishTail_of_skeleton_eq htail hskeleton.symm hfinish
  refine ⟨_, bind_eq_ok_iff.mpr ⟨other, hother, hother'⟩, ?_⟩
  intro hstore
  have hlt := hstrict hstore
  obtain ⟨_, rfl⟩ := (finishTail_endPatch_eq_ok_iff htail).mp hfinish
  change other.textSize < last.textSize
  omega

/-- The outcomes agree exactly when no line stores a carriage return. -/
theorem runText_agree_iff (htail : trim tail = endPatchMarker) (patch : Text) :
    OutcomesAgree
        ((runText (lines.map (stripSuffixChar '\r')) tail).map (toArgs patch))
        (runText lines tail) ↔
      ((∃ parser, runText (lines.map (stripSuffixChar '\r')) tail = .ok parser) →
        StoresNoReturn {} lines) := by
  constructor
  · rintro hagree ⟨batch, hbatch⟩
    by_contra hstore
    rw [hbatch] at hagree
    cases hstream : runText lines tail with
    | error e => simp [hstream, OutcomesAgree] at hagree
    | ok stream =>
      obtain ⟨other, hother, hstrict⟩ := runText_strip_of_ok htail hstream
      rw [hbatch] at hother
      cases hother
      rw [hstream] at hagree
      have hhunks : batch.state.hunks = stream.state.hunks := hagree.1
      have hlt := hstrict hstore
      simp [textSize, hhunks] at hlt
  · intro hstore
    cases hbatch : runText (lines.map (stripSuffixChar '\r')) tail with
    | ok batch =>
      rw [← hbatch]
      exact runText_agree_of_storesNoReturn (hstore ⟨batch, hbatch⟩) tail patch
    | error e =>
      cases hstream : runText lines tail with
      | error e' => trivial
      | ok stream =>
        obtain ⟨other, hother, _⟩ := runText_strip_of_ok htail hstream
        rw [hbatch] at hother
        cases hother

theorem tail_of_trim_eq_self (htrim : trim (unlines lines ++ tail) = unlines lines ++ tail)
    (hne : unlines lines ++ tail ≠ []) :
    tail ≠ [] ∧ ∀ c, tail.getLast? = some c → isWhitespace c = false := by
  constructor
  · rintro rfl
    rw [append_nil] at htrim hne
    have hlines : lines ≠ [] := by
      rintro rfl
      exact hne rfl
    have hlast : (unlines lines).getLast? = some '\n' := by
      rw [← dropLast_append_getLast hlines]
      simp [unlines]
    have hwhite := not_isWhitespace_of_trim_eq_self htrim hlast
    cases hwhite
  · intro c hc
    refine not_isWhitespace_of_trim_eq_self htrim ?_
    rw [getLast?_append, hc]
    rfl

/-- For a text that is its own `trim` and starts with the begin marker, and for
every way of cutting it into deltas, the batch parser and the streaming parser
agree if and only if the text is rejected or no line that ends in two carriage
returns and a line feed is stored in a hunk. -/
theorem parsersAgree_iff_storesNoReturn {text first : Text} {deltas : List Text}
    (htrim : trim text = text) (hfirst : (textLines text).head? = some first)
    (hbegin : trim first = beginPatchMarker) (hsplit : deltas.flatten = text) :
    ParsersAgree text deltas ↔
      ((∃ args, parsePatch text = .ok args) →
        StoresNoReturn {} (cutLines text).1) := by
  obtain ⟨hlines, htail⟩ := lf_not_mem_cutLines text
  have hcut := unlines_cutLines text
  generalize (cutLines text).1 = lines at hlines hcut ⊢
  generalize (cutLines text).2 = tail at htail hcut
  subst hcut
  have hnonempty : unlines lines ++ tail ≠ [] := by
    intro hnil
    rw [hnil] at hfirst
    cases hfirst
  obtain ⟨hne, hlast⟩ := tail_of_trim_eq_self htrim hnonempty
  rw [textLines_unlines_append hlines htail hne] at hfirst
  have hbatch := parsePatch_unlines_append hlines htail hne htrim hfirst hbegin
  have hstream : parseDeltas deltas = runText lines tail :=
    parseDeltas_unlines_append hsplit hlines htail
  unfold ParsersAgree
  rw [hbatch, hstream]
  split_ifs with hend
  · rw [runText_agree_iff hend]
    refine imp_congr_left ⟨?_, ?_⟩
    · rintro ⟨parser, hparser⟩
      exact ⟨_, by rw [hparser, map_ok]⟩
    · rintro ⟨args, hargs⟩
      cases hrun : runText (lines.map (stripSuffixChar '\r')) tail with
      | error e => simp [hrun] at hargs
      | ok parser => exact ⟨parser, rfl⟩
  · have hreject : ∃ e, runText lines tail = .error e := by
      unfold runText
      cases runLines {} lines with
      | error e => exact ⟨e, rfl⟩
      | ok parser => exact finishTail_error parser hne hlast hend
    obtain ⟨e, he⟩ := hreject
    simp [he, OutcomesAgree]

/-- A line with a carriage return at its end, which both parsers drop, and one with a carriage
return inside, which both keep.  The deltas cut the first of them before its line feed. -/
theorem parsersAgree_iff_storesNoReturn_plainPatch :
    ParsersAgree
        "*** Begin Patch\n*** Update File: a\n-old\r\n+ne\rw\n*** End Patch".toList
        ["*** Begin Patch\n*** Update File: a\n-old\r".toList,
          "\n+ne\rw\n*** End Patch".toList] ↔
      ((∃ args, parsePatch
          "*** Begin Patch\n*** Update File: a\n-old\r\n+ne\rw\n*** End Patch".toList =
            .ok args) →
        StoresNoReturn {} (cutLines
          "*** Begin Patch\n*** Update File: a\n-old\r\n+ne\rw\n*** End Patch".toList).1) :=
  @parsersAgree_iff_storesNoReturn _ "*** Begin Patch".toList _
    (by decide) (by decide) (by decide) (by decide)

/-- A removed line that ends in two carriage returns before its line feed: the
batch parser removes `old`, the streaming parser `old` with a carriage
return. -/
theorem parsers_disagree_on_doubled_return :
    ∃ (text first : Text) (deltas : List Text),
      trim text = text ∧ (textLines text).head? = some first ∧
        trim first = beginPatchMarker ∧ deltas.flatten = text ∧
        ¬ ParsersAgree text deltas :=
  ⟨"*** Begin Patch\n*** Update File: a\n-old\r\r\n*** End Patch".toList,
    "*** Begin Patch".toList,
    ["*** Begin Patch\n*** Update File: a\n-old\r\r\n*** End Patch".toList],
    by decide, by decide, by decide, by decide, by decide⟩

end Rexux.ApplyPatch
