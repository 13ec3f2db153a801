import Mathlib.Data.List.DropRight
import Rexux.ExecServer.SessionEvents
import Rexux.Foundation.ByteStream

/-!
# The capped output buffer

The buffer keeps the beginning and the end of a byte stream and counts what it left out
between them. Its contents depend on the stream alone: they do not show into which chunks
the stream was cut, nor which parts of it were buffered apart and joined later.
-/

namespace Rexux.UnifiedExec

open Foundation List ExecServer

def headBudget (maxBytes : ℕ) : ℕ := maxBytes / 2

def tailBudget (maxBytes : ℕ) : ℕ := maxBytes - headBudget maxBytes

structure HeadTailBuffer (maxBytes : ℕ) where
  head : ByteString
  tail : ByteString
  omittedBytes : ℕ
  deriving DecidableEq

variable {maxBytes : ℕ}

namespace HeadTailBuffer

def empty : HeadTailBuffer maxBytes := ⟨[], [], 0⟩

/-- Fills the head, and returns the bytes that did not fit. -/
def fillHead (buffer : HeadTailBuffer maxBytes) (chunk : ByteString) :
    HeadTailBuffer maxBytes × ByteString :=
  let remainingHead := headBudget maxBytes - buffer.head.length
  ({ buffer with head := buffer.head ++ chunk.take remainingHead }, chunk.drop remainingHead)

def pushTail (buffer : HeadTailBuffer maxBytes) (chunk : ByteString) : HeadTailBuffer maxBytes :=
  let remainingTail := tailBudget maxBytes - buffer.tail.length
  let excessTail := chunk.length - remainingTail
  { buffer with
    tail :=
      if excessTail < buffer.tail.length then buffer.tail.drop excessTail ++ chunk
      else chunk.drop (excessTail - buffer.tail.length)
    omittedBytes := saturatingAdd buffer.omittedBytes excessTail }

def pushChunk (buffer : HeadTailBuffer maxBytes) (chunk : ByteString) : HeadTailBuffer maxBytes :=
  let (buffer, chunk) := buffer.fillHead chunk
  buffer.pushTail chunk

/-- Takes over the head of a later buffer, and returns the bytes that did not fit. -/
def takeHead (buffer : HeadTailBuffer maxBytes) (head : ByteString) :
    HeadTailBuffer maxBytes × ByteString :=
  if buffer.head = [] then ({ buffer with head := head }, []) else buffer.fillHead head

/-- Takes over the tail of a later buffer. The storage of that tail wraps around at `wrap`. -/
def takeTail (buffer : HeadTailBuffer maxBytes) (overflow : ByteString) (wrap : ℕ)
    (tail : ByteString) : HeadTailBuffer maxBytes :=
  if tail.length = tailBudget maxBytes then
    { buffer with
      tail
      omittedBytes := saturatingAdd (saturatingAdd buffer.omittedBytes buffer.tail.length)
        overflow.length }
  else
    let buffer := buffer.pushTail overflow
    if buffer.tail = [] then { buffer with tail }
    else (buffer.pushTail (tail.take wrap)).pushTail (tail.drop wrap)

def pushBuffer (buffer : HeadTailBuffer maxBytes) (wrap : ℕ)
    (source : HeadTailBuffer maxBytes) : HeadTailBuffer maxBytes :=
  let buffer :=
    { buffer with omittedBytes := saturatingAdd buffer.omittedBytes source.omittedBytes }
  let (buffer, overflow) := buffer.takeHead source.head
  buffer.takeTail overflow wrap source.tail

/-- What is kept of a stream that begins with `head` and goes on with `rest`. -/
def keeping (head rest : ByteString) : HeadTailBuffer maxBytes :=
  ⟨head, rest.rtake (tailBudget maxBytes), min (rest.length - tailBudget maxBytes) (2 ^ 64 - 1)⟩

def ofStream (stream : ByteString) : HeadTailBuffer maxBytes :=
  keeping (stream.take (headBudget maxBytes)) (stream.drop (headBudget maxBytes))

theorem length_rtake (bytes : ByteString) (count : ℕ) :
    (bytes.rtake count).length = bytes.length - (bytes.length - count) := by
  rw [rtake, length_drop]

theorem pushTail_keeping (head rest chunk : ByteString) :
    (keeping head rest : HeadTailBuffer maxBytes).pushTail chunk =
      keeping head (rest ++ chunk) := by
  simp only [pushTail, keeping, length_rtake, mk.injEq, true_and]
  generalize tailBudget maxBytes = budget
  rw [length_append, saturatingAdd]
  refine ⟨?_, by omega⟩
  split
  next hpart =>
    rw [rtake, rtake, drop_drop, length_append, drop_append_of_le_length (by omega)]
    congr 2
    omega
  next hwhole =>
    have hgone : rest.drop (rest.length + chunk.length - budget) = [] :=
      drop_eq_nil_of_le (by omega)
    rw [rtake, length_append, drop_append, hgone]
    congr 1
    omega

section

variable {buffer : HeadTailBuffer maxBytes} {stream : ByteString}

theorem fillHead_eq (h : buffer.head = stream.take (headBudget maxBytes)) (chunk : ByteString) :
    buffer.fillHead chunk =
      ({ buffer with head := (stream ++ chunk).take (headBudget maxBytes) },
        chunk.drop (headBudget maxBytes - stream.length)) := by
  have hremaining : headBudget maxBytes - buffer.head.length =
      headBudget maxBytes - stream.length := by
    rw [h, length_take]
    omega
  rw [fillHead, hremaining, h, take_append]

theorem pushChunk_ofStream (stream chunk : ByteString) :
    (ofStream stream : HeadTailBuffer maxBytes).pushChunk chunk = ofStream (stream ++ chunk) := by
  rw [pushChunk, ofStream, ofStream, fillHead_eq rfl, drop_append, ← pushTail_keeping]
  rfl

theorem takeHead_eq (h : buffer.head = stream.take (headBudget maxBytes)) (more : ByteString) :
    buffer.takeHead (more.take (headBudget maxBytes)) =
      ({ buffer with head := (stream ++ more).take (headBudget maxBytes) },
        (more.take (headBudget maxBytes)).drop (headBudget maxBytes - stream.length)) := by
  unfold takeHead
  split
  next hnil =>
    rw [h, take_eq_nil_iff] at hnil
    rcases hnil with hbudget | rfl
    · simp [hbudget]
    · simp
  · rw [fillHead_eq h, take_append, take_append, take_take, Nat.min_eq_left (Nat.sub_le _ _)]

theorem takeTail_keeping (head rest overflow : ByteString) (wrap : ℕ) (source : ByteString) :
    (⟨head, rest.rtake (tailBudget maxBytes),
        saturatingAdd (min (rest.length - tailBudget maxBytes) (2 ^ 64 - 1))
          (min (source.length - tailBudget maxBytes) (2 ^ 64 - 1))⟩ :
      HeadTailBuffer maxBytes).takeTail overflow wrap (source.rtake (tailBudget maxBytes)) =
      keeping head (rest ++ overflow ++ source) := by
  unfold takeTail
  rw [length_rtake]
  split
  next hfull =>
    -- The source's tail alone fills the budget, and everything before it is left out.
    have htail : (rest ++ overflow ++ source).rtake (tailBudget maxBytes) =
        source.rtake (tailBudget maxBytes) := by
      rw [rtake, length_append, drop_append, drop_eq_nil_of_le (by omega), nil_append]
      congr 1
      omega
    rw [keeping, htail, length_rtake, length_append, length_append]
    simp only [saturatingAdd, mk.injEq, true_and]
    omega
  next hpart =>
    have hsource : source.length < tailBudget maxBytes := by omega
    have hkept : source.rtake (tailBudget maxBytes) = source := by
      rw [rtake, Nat.sub_eq_zero_of_le (Nat.le_of_lt hsource), drop_zero]
    have hcount : saturatingAdd (min (rest.length - tailBudget maxBytes) (2 ^ 64 - 1))
        (min (source.length - tailBudget maxBytes) (2 ^ 64 - 1)) =
          min (rest.length - tailBudget maxBytes) (2 ^ 64 - 1) := by
      rw [saturatingAdd]
      omega
    rw [hkept, hcount, ← keeping, pushTail_keeping]
    dsimp only
    split
    next hnil =>
      have hempty : rest ++ overflow = [] := by
        rw [keeping, rtake, drop_eq_nil_iff] at hnil
        exact eq_nil_of_length_eq_zero (by omega)
      rw [hempty, nil_append, keeping, keeping, hkept]
      simp [Nat.sub_eq_zero_of_le (Nat.le_of_lt hsource)]
    · rw [pushTail_keeping, pushTail_keeping, append_assoc (rest ++ overflow), take_append_drop]

theorem drop_append_more (stream more : ByteString) (budget : ℕ) :
    (stream ++ more).drop budget = stream.drop budget ++
      (more.take budget).drop (budget - stream.length) ++ more.drop budget := by
  conv_lhs => rw [← take_append_drop budget more]
  rw [drop_append, drop_append, append_assoc]
  rcases Nat.le_total budget more.length with hfull | hshort
  · rw [length_take, Nat.min_eq_left hfull, Nat.sub_eq_zero_of_le (Nat.sub_le _ _), drop_zero]
  · rw [drop_eq_nil_of_le hshort, drop_nil]

theorem pushBuffer_ofStream (stream : ByteString) (wrap : ℕ) (more : ByteString) :
    (ofStream stream : HeadTailBuffer maxBytes).pushBuffer wrap (ofStream more) =
      ofStream (stream ++ more) := by
  rw [pushBuffer, ofStream, ofStream, ofStream, drop_append_more, ← takeTail_keeping _ _ _ wrap]
  rw [keeping, keeping, takeHead_eq rfl]

end

/-- A buffer is filled with chunks and with other buffers, each of them filled so. -/
inductive Filling
  | empty
  | chunk (filling : Filling) (bytes : ByteString)
  | buffer (filling : Filling) (wrap : ℕ) (source : Filling)

namespace Filling

def stream : Filling → ByteString
  | empty => []
  | chunk filling bytes => filling.stream ++ bytes
  | buffer filling _ source => filling.stream ++ source.stream

def run : Filling → HeadTailBuffer maxBytes
  | empty => HeadTailBuffer.empty
  | chunk filling bytes => filling.run.pushChunk bytes
  | buffer filling wrap source => filling.run.pushBuffer wrap source.run

end Filling

theorem run_eq_ofStream (filling : Filling) :
    (filling.run : HeadTailBuffer maxBytes) = ofStream filling.stream := by
  induction filling with
  | empty => simp [Filling.run, Filling.stream, empty, ofStream, keeping]
  | chunk filling bytes ih => rw [Filling.run, ih, pushChunk_ofStream, Filling.stream]
  | buffer filling wrap source ih ihSource =>
    rw [Filling.run, ih, ihSource, pushBuffer_ofStream, Filling.stream]

/-- The buffer is a function of the stream, so buffers joined in order hold what one buffer
of the joined streams holds. The count of omitted bytes is exact until it fills its word. -/
theorem buffers_stream (maxBytes : ℕ) (filling source : Filling) (wrap : ℕ) :
    filling.run = (⟨filling.stream.take (maxBytes / 2),
        (filling.stream.drop (maxBytes / 2)).rtake (maxBytes - maxBytes / 2),
        min (filling.stream.length - maxBytes) (2 ^ 64 - 1)⟩ : HeadTailBuffer maxBytes) ∧
      filling.run.pushBuffer wrap source.run =
        (empty : HeadTailBuffer maxBytes).pushChunk (filling.stream ++ source.stream) := by
  constructor
  · have hlength : filling.stream.length - maxBytes =
        (filling.stream.drop (headBudget maxBytes)).length - tailBudget maxBytes := by
      rw [length_drop, tailBudget, headBudget]
      omega
    rw [run_eq_ofStream, hlength]
    rfl
  · have hjoined : ((Filling.buffer filling wrap source).run : HeadTailBuffer maxBytes) =
        (Filling.chunk .empty (filling.stream ++ source.stream)).run := by
      rw [run_eq_ofStream, run_eq_ofStream]
      rfl
    exact hjoined

end HeadTailBuffer

end Rexux.UnifiedExec
