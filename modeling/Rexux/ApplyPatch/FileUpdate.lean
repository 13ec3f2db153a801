import Mathlib.Data.List.Sort
import Rexux.ApplyPatch.StreamingParser

/-!
# Deriving the new contents of an updated file

The chunks of an update hunk are located in the lines of the file and turned
into replacements, which are then applied from the last to the first.  The mode
decides whether the file is read as lines separated by line feeds, or as lines
that keep their own terminators.
-/

namespace Rexux.ApplyPatch

open Foundation

/-- Whether an update keeps the line endings of the file. -/
inductive ApplyPatchFileUpdateMode where
  | normalizeToLf
  | preserveLineEndings
  deriving DecidableEq, Repr

/-- Typographic dashes, quotes and spaces as their ASCII counterparts. -/
def normaliseChar (c : Char) : Char :=
  if c.toNat ∈ [0x2010, 0x2011, 0x2012, 0x2013, 0x2014, 0x2015, 0x2212] then
    '-'
  else if c.toNat ∈ [0x2018, 0x2019, 0x201A, 0x201B] then '\''
  else if c.toNat ∈ [0x201C, 0x201D, 0x201E, 0x201F] then '"'
  else if c.toNat ∈ [0x00A0, 0x2002, 0x2003, 0x2004, 0x2005, 0x2006, 0x2007,
      0x2008, 0x2009, 0x200A, 0x202F, 0x205F, 0x3000] then ' '
  else c

/-- Texts that are compared by the last resort: trimmed, with typographic characters replaced. -/
def normalise (s : Text) : Text := (trim s).map normaliseChar

/-- The lines at `index` match the pattern after `canon` on both sides. -/
def matchesAt (canon : Text → Text) (lines pattern : List Text) (index : ℕ) : Bool :=
  ((lines.drop index).take pattern.length).map canon = pattern.map canon

/-- The first index from `searchStart` up to the last one at which the pattern
fits where the lines match. -/
def seekFrom (canon : Text → Text) (lines pattern : List Text) (searchStart : ℕ) : Option ℕ :=
  let count := lines.length - pattern.length + 1 - searchStart
  (List.range' searchStart count).find? (matchesAt canon lines pattern)

/-- Find `pattern` in `lines` at or after `start`, with decreasing strictness:
exactly, up to trailing white space, up to white space at both ends, and up to
typographic characters. -/
def seekSequence (lines pattern : List Text) (start : ℕ) (eof : Bool)
    (mode : ApplyPatchFileUpdateMode) : Option ℕ :=
  if pattern.isEmpty then some start
  else if pattern.length > lines.length then none
  else
    let searchStart :=
      if eof then
        match mode with
        | .normalizeToLf => lines.length - pattern.length
        | .preserveLineEndings => max (lines.length - pattern.length) start
      else start
    seekFrom id lines pattern searchStart <|>
      seekFrom trimEnd lines pattern searchStart <|>
      seekFrom trim lines pattern searchStart <|>
      seekFrom normalise lines pattern searchStart

inductive LineEnding where
  | lf
  | crLf
  | cr
  deriving DecidableEq, Repr

def LineEnding.text : LineEnding → Text
  | .lf => ['\n']
  | .crLf => ['\r', '\n']
  | .cr => ['\r']

/-- A line of a file with its ending, if it has one. -/
structure SourceLine where
  text : Text
  ending : Option LineEnding
  deriving DecidableEq, Repr

/-- A file as lines, with the ending that new lines get. -/
structure SourceFile where
  lines : List SourceLine
  preferredEnding : LineEnding
  deriving DecidableEq, Repr

/-- Lines that are taken out at a place, and those that come in. -/
structure Replacement where
  startIdx : ℕ
  oldLen : ℕ
  newSegment : List Text
  deriving DecidableEq, Repr

namespace SourceFile

/-- Cut the contents after every ending; `line` holds what has been read of the
current line. -/
def splitLines (line : Text) : Text → List SourceLine
  | [] => if line.isEmpty then [] else [⟨line, none⟩]
  | '\r' :: '\n' :: rest => ⟨line, some .crLf⟩ :: splitLines [] rest
  | '\r' :: rest => ⟨line, some .cr⟩ :: splitLines [] rest
  | '\n' :: rest => ⟨line, some .lf⟩ :: splitLines [] rest
  | c :: rest => splitLines (line ++ [c]) rest

/-- The first ending of the file is the one inserted lines get. -/
def parse (contents : Text) : SourceFile :=
  let lines := splitLines [] contents
  { lines := lines
    preferredEnding := (lines.findSome? (·.ending)).getD .lf }

def lineTexts (file : SourceFile) : List Text := file.lines.map (·.text)

/-- Keep the lines up to each replacement, drop the replaced ones and insert
the new segment; `sourceIndex` counts the lines already consumed. -/
def replaceLines (preferredEnding : LineEnding) :
    List Replacement → ℕ → List SourceLine → List SourceLine
  | [], _, source => source
  | replacement :: rest, sourceIndex, source =>
    let kept := replacement.startIdx - sourceIndex
    source.take kept ++
      replacement.newSegment.map (⟨·, some preferredEnding⟩) ++
      replaceLines preferredEnding rest
        (replacement.startIdx + replacement.oldLen)
        ((source.drop kept).drop replacement.oldLen)

/-- After the replacements every line gets an ending. -/
def applyReplacements (file : SourceFile) (replacements : List Replacement) : SourceFile :=
  let lines := replaceLines file.preferredEnding replacements 0 file.lines
  { file with
    lines := lines.map fun line =>
      { line with ending := some (line.ending.getD file.preferredEnding) } }

def intoContents (file : SourceFile) : Text :=
  file.lines.flatMap fun line => line.text ++ (line.ending.map LineEnding.text).getD []

end SourceFile

/-- The error for a context line that is not in the file. -/
def contextNotFoundMessage (contextLine path : Text) : Text :=
  "Failed to find context '".toList ++ contextLine ++ "' in ".toList ++ path

/-- The error for old lines that are not in the file. -/
def linesNotFoundMessage (path : Text) (oldLines : List Text) : Text :=
  "Failed to find expected lines in ".toList ++ path ++ ":\n".toList ++ joinLines oldLines

/-- Where a chunk without old lines is inserted: at the end, before a last empty line. -/
def insertionIdx (originalLines : List Text) : ApplyPatchFileUpdateMode → ℕ
  | .normalizeToLf =>
    if originalLines.getLast? = some [] then originalLines.length - 1
    else originalLines.length
  | .preserveLineEndings => originalLines.length

/-- What is left of a located chunk after its last context line. -/
def trailingReplacement (startIdx : ℕ) (pattern newSlice : List Text)
    (oldStart newStart : ℕ) : List Replacement :=
  if oldStart ≠ pattern.length ∨ newStart ≠ newSlice.length then
    [⟨startIdx + oldStart, pattern.length - oldStart, newSlice.drop newStart⟩]
  else []

/-- The replacements between the context lines of a located chunk. -/
def splitAtContext (startIdx : ℕ) (pattern newSlice : List Text) :
    ℕ → ℕ → List (ℕ × ℕ) → List Replacement
  | oldStart, newStart, [] => trailingReplacement startIdx pattern newSlice oldStart newStart
  | oldStart, newStart, (oldContext, newContext) :: rest =>
    -- A trailing empty context line may have been removed from the pattern.
    if oldContext ≥ pattern.length ∨ newContext ≥ newSlice.length then
      trailingReplacement startIdx pattern newSlice oldStart newStart
    else
      (if oldStart ≠ oldContext ∨ newStart ≠ newContext then
        [⟨startIdx + oldStart, oldContext - oldStart,
          (newSlice.drop newStart).take (newContext - newStart)⟩]
      else []) ++
        splitAtContext startIdx pattern newSlice (oldContext + 1) (newContext + 1) rest

/-- The replacements of one chunk, searched from `lineIndex` on. -/
def chunkReplacements (originalLines : List Text) (path : Text)
    (mode : ApplyPatchFileUpdateMode) (lineIndex : ℕ)
    (chunk : UpdateFileChunk) : Except Text (List Replacement × ℕ) := do
  let lineIndex ← match chunk.changeContext with
    | none => pure lineIndex
    | some contextLine =>
      match seekSequence originalLines [contextLine] lineIndex false mode with
      | some idx => pure (idx + 1)
      | none => throw (contextNotFoundMessage contextLine path)
  if chunk.oldLines.isEmpty then
    return ([⟨insertionIdx originalLines mode, 0, chunk.newLines⟩], lineIndex)
  let direct := seekSequence originalLines chunk.oldLines lineIndex chunk.isEndOfFile mode
  let (pattern, newSlice, found) :=
    if direct.isNone && chunk.oldLines.getLast? = some [] then
      -- Retry without the empty line that stands for the final line feed.
      let pattern := chunk.oldLines.dropLast
      let newSlice :=
        if chunk.newLines.getLast? = some [] then chunk.newLines.dropLast
        else chunk.newLines
      (pattern, newSlice, seekSequence originalLines pattern lineIndex chunk.isEndOfFile mode)
    else (chunk.oldLines, chunk.newLines, direct)
  match found with
  | none => throw (linesNotFoundMessage path chunk.oldLines)
  | some startIdx =>
    let replacements := match mode with
      | .normalizeToLf => [⟨startIdx, pattern.length, newSlice⟩]
      | .preserveLineEndings =>
        splitAtContext startIdx pattern newSlice 0 0 chunk.contextLineIndices
    return (replacements, startIdx + pattern.length)

/-- The replacements of all chunks; each is searched behind the one before. -/
def collectReplacements (originalLines : List Text) (path : Text)
    (mode : ApplyPatchFileUpdateMode) : ℕ → List UpdateFileChunk → Except Text (List Replacement)
  | _, [] => .ok []
  | lineIndex, chunk :: chunks => do
      let (replacements, lineIndex) ← chunkReplacements originalLines path mode lineIndex chunk
      let rest ← collectReplacements originalLines path mode lineIndex chunks
      return replacements ++ rest

/-- All replacements in the order of their places. -/
def computeReplacements (originalLines : List Text) (path : Text)
    (chunks : List UpdateFileChunk) (mode : ApplyPatchFileUpdateMode) :
    Except Text (List Replacement) := do
  let replacements ← collectReplacements originalLines path mode 0 chunks
  return replacements.insertionSort (fun a b => a.startIdx ≤ b.startIdx)

/-- Replacements in descending order, so that earlier ones keep their place. -/
def applyReplacements (lines : List Text) (replacements : List Replacement) : List Text :=
  replacements.foldr
    (fun replacement lines =>
      lines.take replacement.startIdx ++ replacement.newSegment ++
        lines.drop (replacement.startIdx + replacement.oldLen))
    lines

/-- The new contents of a file. -/
def newContentsFromChunks (path : Text) (chunks : List UpdateFileChunk)
    (mode : ApplyPatchFileUpdateMode) (originalContents : Text) : Except Text Text :=
  match mode with
  | .normalizeToLf => do
      let pieces := originalContents.splitOn '\n'
      let originalLines := if pieces.getLast? = some [] then pieces.dropLast else pieces
      let replacements ← computeReplacements originalLines path chunks mode
      let newLines := applyReplacements originalLines replacements
      return joinLines (if newLines.getLast? = some [] then newLines else newLines ++ [[]])
  | .preserveLineEndings => do
      let sourceFile := SourceFile.parse originalContents
      let replacements ← computeReplacements sourceFile.lineTexts path chunks mode
      return (sourceFile.applyReplacements replacements).intoContents

end Rexux.ApplyPatch
