import Rexux.ApplyPatch.Parser
import Rexux.Foundation.ListEdits
import Mathlib.Data.List.Infix

/-!
# Hunks while they are streamed

Every delta leaves a list of hunks that a client may show.  A longer patch only adds to
it: the last chunk of the last hunk grows, or something is opened after it.
-/

namespace Rexux.ApplyPatch

open Foundation List StreamingPatchParser UpdateFileChunk Option

/-- The later chunk has the lines of the earlier one and maybe more. -/
structure UpdateFileChunk.Grows (before after : UpdateFileChunk) : Prop where
  changeContext : after.changeContext = before.changeContext
  oldLines : before.oldLines <+: after.oldLines
  newLines : before.newLines <+: after.newLines
  contextLineIndices : before.contextLineIndices <+: after.contextLineIndices
  isEndOfFile : before.isEndOfFile = true → after.isEndOfFile = true

/-- The later hunk is the earlier one, continued. -/
def Hunk.Grows : Hunk → Hunk → Prop
  | .addFile path contents, .addFile path' contents' => path' = path ∧ contents <+: contents'
  | .deleteFile path, .deleteFile path' => path' = path
  | .updateFile path movePath chunks, .updateFile path' movePath' chunks' =>
    path' = path ∧ (∀ target ∈ movePath, movePath' = some target) ∧
      GrowsLast UpdateFileChunk.Grows chunks chunks'
  | _, _ => False

/-- The lines recorded as context are equal on both sides, and in order. -/
structure UpdateFileChunk.TracksContext (chunk : UpdateFileChunk) : Prop where
  ordered : chunk.contextLineIndices.Pairwise fun entry later =>
    entry.1 < later.1 ∧ entry.2 < later.2
  equal : ∀ entry ∈ chunk.contextLineIndices, ∃ line,
    chunk.oldLines[entry.1]? = some line ∧ chunk.newLines[entry.2]? = some line

def Hunk.chunks : Hunk → List UpdateFileChunk
  | .updateFile _ _ chunks => chunks
  | _ => []

/-- A hunk that the parser accepts: an update has chunks, and they have lines. -/
def Hunk.IsComplete : Hunk → Prop
  | .updateFile _ _ chunks => chunks ≠ [] ∧ ∀ chunk ∈ chunks, chunk.hasNoLines = false
  | _ => True

theorem UpdateFileChunk.Grows.refl (chunk : UpdateFileChunk) : chunk.Grows chunk :=
  ⟨rfl, prefix_rfl, prefix_rfl, prefix_rfl, id⟩

theorem UpdateFileChunk.Grows.trans {a b c : UpdateFileChunk} (h : a.Grows b) (h' : b.Grows c) :
    a.Grows c :=
  ⟨h'.1.trans h.1, h.2.trans h'.2, h.3.trans h'.3, h.4.trans h'.4, h'.5 ∘ h.5⟩

theorem Hunk.Grows.refl (hunk : Hunk) : hunk.Grows hunk := by
  cases hunk with
  | addFile path contents => exact ⟨rfl, prefix_rfl⟩
  | deleteFile path => exact rfl
  | updateFile path movePath chunks =>
    exact ⟨rfl, fun _ h => h, growsLast_refl UpdateFileChunk.Grows.refl chunks⟩

theorem Hunk.Grows.trans {a b c : Hunk} (h : a.Grows b) (h' : b.Grows c) : a.Grows c := by
  cases a <;> cases b <;> try exact h.elim
  all_goals cases c <;> try exact h'.elim
  · exact ⟨h'.1.trans h.1, h.2.trans h'.2⟩
  · exact Eq.trans h' h
  · exact ⟨h'.1.trans h.1, fun target htarget => h'.2.1 target (h.2.1 target htarget),
      h.2.2.trans UpdateFileChunk.Grows.trans h'.2.2⟩

/-- What reading a line may do to the last chunk. -/
structure IsEdit (edit : UpdateFileChunk → UpdateFileChunk) : Prop where
  grows : ∀ chunk : UpdateFileChunk, chunk.Grows (edit chunk)
  hasLines : ∀ chunk, (edit chunk).hasNoLines = false
  tracks : ∀ chunk : UpdateFileChunk, chunk.TracksContext → (edit chunk).TracksContext

theorem isEdit_pushContextLine (line : Text) : IsEdit (·.pushContextLine line) where
  grows chunk := ⟨rfl, prefix_append _ _, prefix_append _ _, prefix_append _ _, id⟩
  hasLines chunk := by simp [pushContextLine, hasNoLines]
  tracks chunk h := by
    have hbounds : ∀ entry ∈ chunk.contextLineIndices,
        entry.1 < chunk.oldLines.length ∧ entry.2 < chunk.newLines.length := by
      intro entry hentry
      obtain ⟨line, hold, hnew⟩ := h.equal entry hentry
      exact ⟨(List.getElem?_eq_some_iff.mp hold).1, (List.getElem?_eq_some_iff.mp hnew).1⟩
    refine ⟨?_, ?_⟩
    · rw [pushContextLine, pairwise_append]
      refine ⟨h.ordered, pairwise_singleton _ _, fun entry hentry later hlater => ?_⟩
      rw [mem_singleton.mp hlater]
      exact hbounds entry hentry
    · intro entry hentry
      rcases mem_append.mp hentry with hentry | hentry
      · have hequal := h.equal entry hentry
        grind [pushContextLine]
      · rw [mem_singleton.mp hentry]
        exact ⟨line, getElem?_concat_length, getElem?_concat_length⟩

theorem isEdit_pushNewLine (line : Text) : IsEdit (·.pushNewLine line) where
  grows chunk := ⟨rfl, prefix_rfl, prefix_append _ _, prefix_rfl, id⟩
  hasLines chunk := by simp [pushNewLine, hasNoLines]
  tracks chunk h := ⟨h.ordered, fun entry hentry => by
    have hequal := h.equal entry hentry
    grind [pushNewLine]⟩

theorem isEdit_pushOldLine (line : Text) : IsEdit (·.pushOldLine line) where
  grows chunk := ⟨rfl, prefix_append _ _, prefix_rfl, prefix_rfl, id⟩
  hasLines chunk := by simp [pushOldLine, hasNoLines]
  tracks chunk h := ⟨h.ordered, fun entry hentry => by
    have hequal := h.equal entry hentry
    grind [pushOldLine]⟩

/-- What a line of an update leaves in its move path and chunks. -/
inductive ChunkStep (movePath : Option Text) (chunks : List UpdateFileChunk) :
    Option Text × List UpdateFileChunk → Prop
  | ignored : ChunkStep movePath chunks (movePath, chunks)
  | moved (target : Text) (h : movePath = none) : ChunkStep movePath chunks (some target, chunks)
  | opened (context : Option Text) (h : chunks.getLast?.any (·.hasNoLines) = false) :
      ChunkStep movePath chunks (movePath, chunks ++ [{ changeContext := context }])
  | marked : ChunkStep movePath chunks (movePath, markEndOfFile chunks)
  | edited {edit : UpdateFileChunk → UpdateFileChunk} (h : IsEdit edit) :
      ChunkStep movePath chunks (movePath, editLastChunk chunks edit)

variable {result : Option Text × List UpdateFileChunk} {chunks : List UpdateFileChunk} {line : Text}
  {lineNumber : ℕ} {movePath : Option Text}

theorem processBodyLine_step (h : processBodyLine lineNumber line movePath chunks = .ok result) :
    ChunkStep movePath chunks result := by
  unfold processBodyLine at h
  split at h
  · cases h
    exact .edited (isEdit_pushContextLine [])
  · cases h
    exact .edited (isEdit_pushContextLine _)
  · cases h
    exact .edited (isEdit_pushNewLine _)
  · cases h
    exact .edited (isEdit_pushOldLine _)
  · split at h <;> cases h

theorem processUpdateLine_step
    (h : processUpdateLine lineNumber line movePath chunks = .ok result) :
    ChunkStep movePath chunks result := by
  simp only [processUpdateLine] at h
  split at h
  · cases h
    exact .ignored
  split at h
  · cases h
  split at h
  case h_1 hfirst _ =>
    cases h
    exact .moved _ (by simp_all)
  split at h
  · cases h
  split at h
  · cases h
    exact .opened none (by simp_all [isContextMarkerLine])
  split at h
  · rename_i hcontext
    cases h
    have hmarked : changeContextMarker.isPrefixOf (trimEnd line) :=
      isPrefixOf_iff_prefix.mpr ⟨_, isPrefixOf?_eq_some_iff_append_eq.mp hcontext⟩
    exact .opened _ (by simp_all [isContextMarkerLine])
  split at h
  · split at h
    · cases h
    · cases h
      exact .marked
  · exact processBodyLine_step h

/-- The chunks of an update that is still being read. -/
structure IsOpen (chunks : List UpdateFileChunk) : Prop where
  tracks : ∀ chunk ∈ chunks, chunk.TracksContext
  hasLines : ∀ chunk ∈ chunks.dropLast, chunk.hasNoLines = false

theorem IsOpen.replace_last {last : UpdateFileChunk}
    (hopen : IsOpen chunks) (last' : UpdateFileChunk)
    (hlast : chunks.getLast? = some last) (hgrows : last.Grows last')
    (htracks : last'.TracksContext) :
    IsOpen (chunks.dropLast ++ [last']) ∧
      GrowsLast UpdateFileChunk.Grows chunks (chunks.dropLast ++ [last']) := by
  refine ⟨⟨fun chunk hchunk => ?_, ?_⟩, growsLast_replace hlast hgrows⟩
  · rcases mem_append.mp hchunk with hchunk | hchunk
    · exact hopen.tracks chunk (mem_of_mem_dropLast hchunk)
    · exact mem_singleton.mp hchunk ▸ htracks
  · rw [dropLast_concat]
    exact hopen.hasLines

/-- A line only adds to the chunks of its hunk. -/
theorem ChunkStep.grows {path : Text} (h : ChunkStep movePath chunks result)
    (hopen : IsOpen chunks) :
    IsOpen result.2 ∧
      (Hunk.updateFile path movePath chunks).Grows (.updateFile path result.1 result.2) := by
  have hempty (context : Option Text) :
      UpdateFileChunk.TracksContext { changeContext := context } :=
    ⟨List.Pairwise.nil, nofun⟩
  cases h with
  | ignored => exact ⟨hopen, Hunk.Grows.refl _⟩
  | moved target h =>
    subst h
    exact ⟨hopen, rfl, nofun, growsLast_refl UpdateFileChunk.Grows.refl chunks⟩
  | opened context h =>
    refine ⟨⟨?_, ?_⟩, rfl, fun _ h => h, growsLast_append UpdateFileChunk.Grows.refl _ _⟩
    · have htracks := hopen.tracks
      grind
    · have hlines := hopen.hasLines
      rcases chunks.eq_nil_or_concat with rfl | ⟨early, last, rfl⟩ <;> grind
  | marked =>
    unfold markEndOfFile
    split
    · exact ⟨hopen, Hunk.Grows.refl _⟩
    · rename_i last hlast
      have htracks := hopen.tracks last (mem_of_getLast? hlast)
      have hreplaced := hopen.replace_last { last with isEndOfFile := true } hlast
        ⟨rfl, prefix_rfl, prefix_rfl, prefix_rfl, fun _ => rfl⟩
        ⟨htracks.ordered, htracks.equal⟩
      exact ⟨hreplaced.1, rfl, fun _ h => h, hreplaced.2⟩
  | edited h =>
    unfold editLastChunk
    split
    · rename_i hnone
      rw [getLast?_eq_none_iff.mp hnone]
      exact ⟨⟨by simpa using h.tracks _ (hempty none), nofun⟩, rfl, fun _ h => h, nofun⟩
    · rename_i last hlast
      have hreplaced := hopen.replace_last _ hlast (h.grows last)
        (h.tracks last (hopen.tracks last (mem_of_getLast? hlast)))
      exact ⟨hreplaced.1, rfl, fun _ h => h, hreplaced.2⟩

/-- All hunks but the one being updated are complete. -/
structure StreamingParserState.Streamed (state : StreamingParserState) : Prop where
  open_chunks : ∀ hunk ∈ state.hunks, IsOpen hunk.chunks
  earlier : ∀ hunk ∈ state.hunks.dropLast, hunk.IsComplete
  closed : (∀ hunkLineNumber, state.mode ≠ .updateFile hunkLineNumber) →
    ∀ hunk ∈ state.hunks.getLast?, hunk.IsComplete

variable {parser : StreamingPatchParser}

theorem ensureUpdateHunkIsNotEmpty_complete
    (hensure : parser.ensureUpdateHunkIsNotEmpty line = .ok ()) (h : parser.state.Streamed) :
    ∀ hunk ∈ parser.state.hunks, hunk.IsComplete := by
  intro hunk hhunk
  rcases ne_or_eq (some hunk) parser.state.hunks.getLast? with hne | hlast
  · exact h.earlier hunk (mem_dropLast_of_mem_of_ne_getLast? hhunk hne)
  cases hunk with
  | addFile | deleteFile => trivial
  | updateFile path movePath chunks =>
    rw [ensureUpdateHunkIsNotEmpty, ← hlast] at hensure
    cases hchunks : chunks.getLast? with
    | none =>
      refine h.closed (fun hunkLineNumber hmode => ?_) _ hlast.symm
      simp [hchunks, hmode] at hensure
    | some chunk =>
      refine ⟨fun hnil => by simp [hnil] at hchunks, fun other hother => ?_⟩
      rcases ne_or_eq (some other) chunks.getLast? with hne | hother'
      · exact (h.open_chunks _ hhunk).hasLines other (mem_dropLast_of_mem_of_ne_getLast? hother hne)
      · grind

variable {opened : Option Hunk × StreamingParserMode}

theorem readFileHeader_opens {trimmed : Text}
    (h : readFileHeader lineNumber trimmed = some opened) :
    (∀ hunk ∈ opened.1, hunk.chunks = []) ∧
      ((∀ hunkLineNumber, opened.2 ≠ .updateFile hunkLineNumber) →
        ∀ hunk ∈ opened.1, hunk.IsComplete) := by
  unfold readFileHeader at h
  split at h
  · cases h
    exact ⟨nofun, fun _ => nofun⟩
  · simp only [orElse_eq_orElse, orElse_eq_or, or_eq_some_iff,
      map_eq_some_iff] at h
    rcases h with ⟨path, -, rfl⟩ | ⟨-, ⟨path, -, rfl⟩ | ⟨-, path, -, rfl⟩⟩
    · simp [Hunk.chunks, Hunk.IsComplete]
    · simp [Hunk.chunks, Hunk.IsComplete]
    · simp [Hunk.chunks]

theorem StreamingParserState.Streamed.enterSection
    (h : parser.state.Streamed) (hensure : parser.ensureUpdateHunkIsNotEmpty line = .ok ())
    (hread : readFileHeader parser.lineNumber line = some opened) :
    (parser.enterSection opened).state.Streamed := by
  obtain ⟨hchunks, hcomplete⟩ := readFileHeader_opens hread
  have hearlier := ensureUpdateHunkIsNotEmpty_complete hensure h
  have hopen := h.open_chunks
  obtain ⟨_ | hunk, mode⟩ := opened
  · refine ⟨?_, ?_, fun _ => ?_⟩ <;> simp only [enterSection, toList_none, append_nil]
    · exact hopen
    · exact fun hunk hhunk => hearlier hunk (mem_of_mem_dropLast hhunk)
    · exact fun hunk hhunk => hearlier hunk (mem_of_getLast? hhunk)
  · have hchunks := hchunks hunk rfl
    refine ⟨?_, ?_, fun hmode => ?_⟩ <;> simp only [enterSection,
      toList_some, dropLast_concat]
    · have hnew : IsOpen hunk.chunks := hchunks ▸ ⟨by simp, by simp⟩
      grind
    · exact hearlier
    · simpa using hcomplete hmode

theorem StreamingParserState.Streamed.replaceLastHunk {hunk : Hunk}
    (h : parser.state.Streamed) (hopen : IsOpen hunk.chunks)
    (hclosed : (∀ hunkLineNumber, parser.state.mode ≠ .updateFile hunkLineNumber) →
      hunk.IsComplete) : (parser.replaceLastHunk hunk).state.Streamed := by
  refine ⟨?_, ?_, fun hmode => ?_⟩ <;> simp only [StreamingPatchParser.replaceLastHunk,
    dropLast_concat]
  · have hothers := h.open_chunks
    grind [mem_of_mem_dropLast]
  · exact h.earlier
  · simpa using hclosed hmode

variable {next : StreamingPatchParser}

/-- A line extends the last hunk or starts a new one; earlier hunks stay. -/
theorem processLine_grows
    (h : parser.processLine line = .ok next) (hstreamed : parser.state.Streamed) :
    next.state.Streamed ∧ GrowsLast Hunk.Grows parser.state.hunks next.state.hunks := by
  have happend := growsLast_append Hunk.Grows.refl parser.state.hunks
  have hrefl := growsLast_refl Hunk.Grows.refl parser.state.hunks
  cases processLine_step h with
  | beginPatch hmode =>
    exact ⟨⟨hstreamed.1, hstreamed.2, fun _ => hstreamed.3 (by simp [hmode])⟩, hrefl⟩
  | header hmode htrimmed hheader =>
    rcases handleHunkHeadersAndEndPatch_some hheader with ⟨_, rfl⟩ | ⟨opened, hread, hensure, rfl⟩
    · exact ⟨⟨hstreamed.1, hstreamed.2, hstreamed.3⟩, hrefl⟩
    · exact ⟨hstreamed.enterSection hensure hread, happend opened.1.toList⟩
  | addLine hmode hline hlast =>
    exact ⟨hstreamed.replaceLastHunk ⟨nofun, nofun⟩ fun _ => trivial,
      growsLast_replace hlast ⟨rfl, by rw [append_assoc]; exact prefix_append _ _⟩⟩
  | updateLine hmode hlast hedit =>
    obtain ⟨hopen, hgrows⟩ := (processUpdateLine_step hedit).grows
      (hstreamed.open_chunks _ (mem_of_getLast? hlast))
    exact ⟨hstreamed.replaceLastHunk hopen fun hne => absurd hmode (hne _),
      growsLast_replace hlast hgrows⟩
  | blank hline => exact ⟨hstreamed, hrefl⟩

/-- So does a piece of text, by induction over its lines. -/
theorem pushDelta_grows {delta : Text}
    (h : parser.pushDelta delta = .ok next) (hstreamed : parser.state.Streamed) :
    next.state.Streamed ∧ GrowsLast Hunk.Grows parser.state.hunks next.state.hunks := by
  induction delta generalizing parser with
  | nil =>
    cases h
    exact ⟨hstreamed, growsLast_refl Hunk.Grows.refl next.state.hunks⟩
  | cons ch delta ih =>
    obtain ⟨middle, hstep, h⟩ := bind_eq_ok_iff.mp h
    have hmiddle : middle.state.Streamed ∧
        GrowsLast Hunk.Grows parser.state.hunks middle.state.hunks := by
      unfold pushChar at hstep
      split at hstep
      · have hline := processLine_grows hstep hstreamed
        exact hline
      · cases hstep
        exact ⟨hstreamed, growsLast_refl Hunk.Grows.refl parser.state.hunks⟩
    obtain ⟨hnext, hgrows⟩ := ih h hmiddle.1
    exact ⟨hnext, hmiddle.2.trans Hunk.Grows.trans hgrows⟩

/-- A patch that is accepted has no empty hunk. -/
theorem finish_complete {finished : StreamingPatchParser}
    (h : parser.finish = .ok finished) (hstreamed : parser.state.Streamed) :
    ∀ hunk ∈ finished.state.hunks,
      hunk.IsComplete ∧ ∀ chunk ∈ hunk.chunks, chunk.TracksContext := by
  have hended {state : StreamingParserState} (hstreamed : state.Streamed)
      (hmode : state.mode = .endedPatch) : ∀ hunk ∈ state.hunks,
        hunk.IsComplete ∧ ∀ chunk ∈ hunk.chunks, chunk.TracksContext := by
    intro hunk hhunk
    refine ⟨?_, (hstreamed.open_chunks hunk hhunk).tracks⟩
    rcases ne_or_eq (some hunk) state.hunks.getLast? with hne | hlast
    · exact hstreamed.earlier hunk (mem_dropLast_of_mem_of_ne_getLast? hhunk hne)
    · exact hstreamed.closed (by simp [hmode]) hunk hlast.symm
  simp only [finish, pure_bind] at h
  split at h
  · split at h
    · cases h
      exact hended hstreamed ‹_›
    · cases h
  split at h
  · obtain ⟨_, hensure, h⟩ := bind_eq_ok_iff.mp h
    cases h
    have hcomplete := ensureUpdateHunkIsNotEmpty_complete hensure hstreamed
    exact fun hunk hhunk => ⟨hcomplete hunk hhunk, (hstreamed.open_chunks hunk hhunk).tracks⟩
  · obtain ⟨last, hlast, h⟩ := bind_eq_ok_iff.mp h
    split_ifs at h
    cases h
    exact hended (processLine_grows hlast hstreamed).1 ‹_›

/-- Of the hunks that are shown while a patch streams in only the last one changes later, and
only by growing.  When the patch is accepted every hunk is complete, and its context lines are
where both sides say. -/
theorem streamed_hunks_grow (deltas more : List Text) (parser parser' : StreamingPatchParser)
    (h : deltas.foldlM pushDelta {} = .ok parser)
    (hmore : more.foldlM pushDelta parser = .ok parser') :
    parser.state.hunks.length ≤ parser'.state.hunks.length ∧
      GrowsLast Hunk.Grows parser.state.hunks parser'.state.hunks ∧
      ∀ finished, parser.finish = .ok finished → ∀ hunk ∈ finished.state.hunks,
        hunk.IsComplete ∧ ∀ chunk ∈ hunk.chunks, chunk.TracksContext := by
  rw [foldlM_pushDelta] at h hmore
  have hstreamed := (pushDelta_grows h ⟨nofun, nofun, fun _ => nofun⟩).1
  have hgrows := (pushDelta_grows hmore hstreamed).2
  exact ⟨hgrows.length_le, hgrows, fun finished hfinish => finish_complete hfinish hstreamed⟩

/-- An added line joins the chunk that is open. -/
theorem second_line_extends_chunk :
    GrowsLast Hunk.Grows
      [.updateFile ['f'] none [⟨none, [['a']], [['a']], [(0, 0)], false⟩]]
      [.updateFile ['f'] none [⟨none, [['a']], [['a'], ['b']], [(0, 0)], false⟩]] :=
  (streamed_hunks_grow ["*** Begin Patch\n*** Update File: f\n".toList, " a\n+".toList]
    ["b\n*** End".toList]
    ⟨['+'], ⟨.updateFile 2,
      [.updateFile ['f'] none [⟨none, [['a']], [['a']], [(0, 0)], false⟩]], none⟩, 3⟩
    ⟨"*** End".toList, ⟨.updateFile 2,
      [.updateFile ['f'] none [⟨none, [['a']], [['a'], ['b']], [(0, 0)], false⟩]], none⟩, 4⟩
    (by decide +kernel) (by decide +kernel)).2.1

end Rexux.ApplyPatch
