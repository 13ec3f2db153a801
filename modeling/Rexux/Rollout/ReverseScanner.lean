import Rexux.Foundation.LineLog
import Rexux.Foundation.Text

/-!
# Records read from the end of a file

The scanner reads a file of lines backwards, a chunk at a time.  Of its chunk only what
stands before its position is kept here, and the file does not change under it.  However
the chunks and the lines are cut, its calls return the lines of the file, last to first.
-/

namespace Rexux.Rollout

open Foundation List

def isAsciiWhitespace (byte : UInt8) : Bool := byte ∈ [32, 9, 10, 12, 13]

inductive ScanOutcome (T Error : Type)
  | parsed (value : T)
  | rejected (error : Error)

/-- The chunk in hand and the record that is being collected, backwards. -/
structure ReverseJsonlScanner where
  nextChunkEnd : ℕ
  chunk : ByteString
  recordReversed : ByteString
  discardingOversizedRecord : Bool

abbrev ScanResult (T Error : Type) := Option (ScanOutcome T Error) × ReverseJsonlScanner

/-- What the calls of a scanner do not change. -/
structure Scan (T Error : Type) where
  file : ByteString
  readChunkSize : ℕ
  readChunkSize_pos : 0 < readChunkSize
  maxRecordBytes : Option ℕ
  fromSlice : ByteString → Except Error T

namespace Scan

variable {T Error : Type} (scan : Scan T Error)

def newAt (endByteOffset : ℕ) : Except Text ReverseJsonlScanner :=
  if scan.file.length < endByteOffset then
    .error "reverse JSONL scan end is past the file".toList
  else .ok ⟨endByteOffset, [], [], false⟩

def outcome (record : ByteString) : Option (ScanOutcome T Error) :=
  if record.all isAsciiWhitespace then none
  else some (match scan.fromSlice record with
    | .ok value => .parsed value
    | .error error => .rejected error)

/-- The record is complete at its front. -/
def finishRecord (scanner : ReverseJsonlScanner) : ScanResult T Error :=
  (scan.outcome scanner.recordReversed.reverse, { scanner with recordReversed := [] })

def isOversized (length : ℕ) : Bool := scan.maxRecordBytes.any (· < length)

def collect (fragment : ByteString) (scanner : ReverseJsonlScanner) : ReverseJsonlScanner :=
  if scanner.discardingOversizedRecord then scanner
  else if scan.isOversized (scanner.recordReversed.length + fragment.length) then
    { scanner with recordReversed := [], discardingOversizedRecord := true }
  else { scanner with recordReversed := scanner.recordReversed ++ fragment.reverse }

def readChunk (scanner : ReverseJsonlScanner) : ReverseJsonlScanner :=
  let readSize := min scanner.nextChunkEnd scan.readChunkSize
  let nextChunkEnd := scanner.nextChunkEnd - readSize
  { scanner with nextChunkEnd, chunk := (scan.file.drop nextChunkEnd).take readSize }

/-- A turn of the loop over what is left of a chunk, and the loop behind it. -/
def scanChunk (loop : ReverseJsonlScanner → ScanResult T Error)
    (scanner : ReverseJsonlScanner) : ScanResult T Error :=
  let before := scanner.chunk.rdropWhile (· != newline)
  -- Without a newline the fragment is the whole chunk.
  let collected := scan.collect (scanner.chunk.rtakeWhile (· != newline))
    { scanner with chunk := before.dropLast }
  if before = [] then loop collected
  else if collected.discardingOversizedRecord then
    loop { collected with discardingOversizedRecord := false }
  else match scan.finishRecord collected with
    | (some outcome, scanner) => (some outcome, scanner)
    | (none, scanner) => loop scanner

/-- Go back until a record is complete; fuel bounds the loop. -/
def scanFor : ℕ → ReverseJsonlScanner → ScanResult T Error
  | 0, scanner => (none, scanner)
  | fuel + 1, scanner =>
    if scanner.chunk ≠ [] then scan.scanChunk (scanFor fuel) scanner
    else if scanner.nextChunkEnd ≠ 0 then
      scan.scanChunk (scanFor fuel) (scan.readChunk scanner)
    else if scanner.discardingOversizedRecord then
      (none, { scanner with discardingOversizedRecord := false })
    else scan.finishRecord scanner

/-- Every turn of the loop leaves fewer bytes to be read. -/
def scanNext (scanner : ReverseJsonlScanner) : ScanResult T Error :=
  scan.scanFor (scanner.nextChunkEnd + scanner.chunk.length + 1) scanner

def calls : ℕ → ReverseJsonlScanner → List (Option (ScanOutcome T Error))
  | 0, _ => []
  | n + 1, scanner => (scan.scanNext scanner).1 :: calls n (scan.scanNext scanner).2

def judge (record : ByteString) : Option (ScanOutcome T Error) :=
  if scan.isOversized record.length then none else scan.outcome record

/-- The records of a text as they are returned, last to first. -/
def outcomes (bytes : ByteString) : List (ScanOutcome T Error) :=
  (linesOf bytes).reverse.filterMap scan.judge

/-- The scanner with this end of a record behind it. -/
def holding (nextChunkEnd : ℕ) (chunk tail : ByteString) : ReverseJsonlScanner where
  nextChunkEnd := nextChunkEnd
  chunk := chunk
  recordReversed := if scan.isOversized tail.length then [] else tail.reverse
  discardingOversizedRecord := scan.isOversized tail.length

variable {scan} {nextChunkEnd : ℕ} {chunk fragment tail bytes : ByteString}

theorem outcomes_of_newline_not_mem (h : newline ∉ tail) :
    scan.outcomes tail = (scan.judge tail).toList := by
  rw [outcomes, linesOf, linesFrom_of_newline_not_mem [] h]
  cases hrecord : scan.judge tail <;> simp [hrecord]

theorem outcomes_append_newline :
    scan.outcomes (bytes ++ newline :: tail) = scan.outcomes tail ++ scan.outcomes bytes := by
  simp only [outcomes, linesOf, linesFrom_append_newline, reverse_append, filterMap_append]

@[simp] theorem outcomes_nil : scan.outcomes [] = [] := by
  simp [outcomes, linesOf, linesFrom, judge, outcome]

@[simp] theorem isOversized_zero : scan.isOversized 0 = false := by
  cases h : scan.maxRecordBytes <;> simp [isOversized]

theorem collect_holding :
    scan.collect fragment (scan.holding nextChunkEnd chunk tail) =
      scan.holding nextChunkEnd chunk (fragment ++ tail) := by
  have hlonger : scan.isOversized tail.length = true →
      scan.isOversized (fragment ++ tail).length = true := by
    simp only [isOversized, Option.any_eq_true_iff_get]
    grind
  cases h : scan.isOversized tail.length <;> grind [collect, holding]

/-- The first of these outcomes is returned and the others are left. -/
def Returns (expected : List (ScanOutcome T Error)) (result : ScanResult T Error) : Prop :=
  ∃ start rest, result = (expected.head?, scan.holding start rest []) ∧
    scan.outcomes (scan.file.take start ++ rest) = expected.tail

theorem finishRecord_holding (h : scan.isOversized tail.length = false) :
    scan.finishRecord (scan.holding nextChunkEnd chunk tail) =
      (scan.outcome tail, scan.holding nextChunkEnd chunk []) := by
  simp [finishRecord, holding, h]

theorem discard_holding (h : scan.isOversized tail.length = true) :
    { scan.holding nextChunkEnd chunk tail with discardingOversizedRecord := false } =
      scan.holding nextChunkEnd chunk [] := by
  simp [holding, h]

/-- The loop returns what is expected of every scanner with fewer bytes left. -/
def Scans (scan : Scan T Error) (fuel : ℕ) (loop : ReverseJsonlScanner → ScanResult T Error) :
    Prop :=
  ∀ nextChunkEnd chunk tail, nextChunkEnd + chunk.length < fuel → newline ∉ tail →
    scan.Returns (scan.outcomes (scan.file.take nextChunkEnd ++ chunk ++ tail))
      (loop (scan.holding nextChunkEnd chunk tail))

variable {fuel : ℕ} {loop : ReverseJsonlScanner → ScanResult T Error}

/-- Within a chunk the scan returns the next record, or asks for more. -/
theorem returns_scanChunk (hloop : scan.Scans fuel loop)
    (hfuel : nextChunkEnd + (chunk.length - 1) < fuel) (htail : newline ∉ tail) :
    scan.Returns (scan.outcomes (scan.file.take nextChunkEnd ++ chunk ++ tail))
      (scan.scanChunk loop (scan.holding nextChunkEnd chunk tail)) := by
  have hsplit := rdropWhile_append_rtakeWhile (p := (· != newline)) (l := chunk)
  have hlast := rdropWhile_last_not (p := (· != newline)) (l := chunk)
  have hrecord : newline ∉ chunk.rtakeWhile (· != newline) ++ tail := by
    have hfragment : newline ∉ chunk.rtakeWhile (· != newline) :=
      fun hmem => by simpa using mem_rtakeWhile_imp hmem
    simp [hfragment, htail]
  have hmoved (rest : ByteString) : { scan.holding nextChunkEnd chunk tail with chunk := rest } =
    scan.holding nextChunkEnd rest tail := rfl
  simp only [scanChunk, hmoved, collect_holding]
  rw [show (scan.holding nextChunkEnd chunk tail).chunk = chunk from rfl]
  generalize chunk.rdropWhile (· != newline) = before at *
  generalize chunk.rtakeWhile (· != newline) = fragment at *
  subst hsplit
  split
  next hbefore =>
    have hrest := hloop nextChunkEnd [] (fragment ++ tail) (by grind) hrecord
    simpa [hbefore] using hrest
  next hbefore =>
    obtain ⟨before, rfl⟩ : ∃ start, before = start ++ [newline] :=
      ⟨before.dropLast, by rw [← dropLast_append_getLast hbefore]; simpa using hlast hbefore⟩
    have hrest := hloop nextChunkEnd before [] (by grind) not_mem_nil
    have hexpected : scan.file.take nextChunkEnd ++ (before ++ [newline] ++ fragment) ++ tail =
        scan.file.take nextChunkEnd ++ before ++ newline :: (fragment ++ tail) := by simp
    rw [hexpected, outcomes_append_newline, outcomes_of_newline_not_mem hrecord, judge,
      dropLast_concat, show (scan.holding nextChunkEnd before (fragment ++ tail)).4 =
        scan.isOversized _ from rfl]
    cases hsize : scan.isOversized (fragment ++ tail).length
    · simp only [finishRecord_holding hsize]
      cases scan.outcome (fragment ++ tail) with
      | none => simpa using hrest
      | some outcome => exact ⟨nextChunkEnd, before, rfl, rfl⟩
    · simpa [discard_holding hsize] using hrest

theorem take_append_drop_take (file : ByteString) (n size : ℕ) :
    file.take (n - min n size) ++ (file.drop (n - min n size)).take (min n size) =
      file.take n := by
  rw [← take_add]
  congr 1
  omega

theorem scans_scanFor : scan.Scans fuel (scan.scanFor fuel) := by
  induction fuel with
  | zero => simp [Scans]
  | succ fuel ih =>
    intro nextChunkEnd chunk tail hfuel htail
    rw [scanFor, show (scan.holding nextChunkEnd chunk tail).chunk = chunk from rfl,
      show (scan.holding nextChunkEnd chunk tail).nextChunkEnd = nextChunkEnd from rfl]
    split_ifs with hchunk hend hsize
    · have hpos := length_pos_iff.2 hchunk
      exact returns_scanChunk ih (by omega) htail
    · obtain rfl : chunk = [] := not_not.1 hchunk
      rw [append_nil, ← take_append_drop_take scan.file nextChunkEnd scan.readChunkSize]
      exact returns_scanChunk ih (by grind [scan.readChunkSize_pos]) htail
    all_goals
      obtain ⟨rfl, rfl⟩ := And.intro (not_not.1 hchunk) (not_not.1 hend)
      rw [take_zero, nil_append, nil_append, outcomes_of_newline_not_mem htail, judge]
    · change scan.isOversized tail.length = true at hsize
      exact ⟨0, [], by simp [holding, hsize], by simp [hsize]⟩
    · have hfits : scan.isOversized tail.length = false := Bool.eq_false_iff.2 hsize
      rw [finishRecord_holding hfits, hfits]
      exact ⟨0, [], by cases scan.outcome tail <;> rfl, by cases scan.outcome tail <;> simp⟩

/-- Calls one after the other return the records from the last to the first. -/
theorem calls_holding (n : ℕ) :
    scan.calls n (scan.holding nextChunkEnd chunk []) =
      (range n).map fun i => (scan.outcomes (scan.file.take nextChunkEnd ++ chunk))[i]? := by
  induction n generalizing nextChunkEnd chunk with
  | zero => rfl
  | succ n ih =>
    obtain ⟨start, rest, hcall, hrest⟩ :
        scan.Returns _ (scan.scanNext (scan.holding nextChunkEnd chunk [])) :=
      scans_scanFor nextChunkEnd chunk [] (Nat.lt_succ_self _) not_mem_nil
    rw [calls, hcall, ih, hrest, range_succ_eq_map]
    simp [head?_eq_getElem?]

/-- However often the scanner is called, its calls return one record after the other, last to
first, and nothing behind the first of them. -/
theorem calls_newAt (endByteOffset n : ℕ) :
    (scan.newAt endByteOffset).map (scan.calls n) =
      if scan.file.length < endByteOffset then
        .error "reverse JSONL scan end is past the file".toList
      else .ok ((range n).map fun i => (scan.outcomes (scan.file.take endByteOffset))[i]?) := by
  rw [newAt]
  split_ifs
  · rfl
  · have hstart : ReverseJsonlScanner.mk endByteOffset [] [] false =
        scan.holding endByteOffset [] [] := by simp [holding]
    rw [hstart, Except.map, calls_holding, append_nil]

end Scan

end Rexux.Rollout
