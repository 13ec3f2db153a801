import Rexux.Foundation.ByteStream

/-!
# Logs of lines

A file of records, one record a line.  What is read from it are the lines that parse, so
that a fragment of a record between two newlines is passed over.
-/

namespace Foundation

open List

def newline : UInt8 := 10

def linesFrom (line : ByteString) : ByteString → List ByteString
  | [] => [line]
  | byte :: rest =>
    if byte = newline then line :: linesFrom [] rest else linesFrom (line ++ [byte]) rest

/-- The lines of a file; what follows the last newline counts as a line. -/
def linesOf (file : ByteString) : List ByteString := linesFrom [] file

/-- The file is empty or ends in a newline. -/
def IsTerminated (file : ByteString) : Prop := file = [] ∨ file.getLast? = some newline

/-- What is missing at the end of the file. -/
def terminator (file : ByteString) : ByteString :=
  if file = [] ∨ file.getLast? = some newline then [] else [newline]

/-- How records are written.  A cut of a record is not one. -/
structure LineFormat (Record : Type) where
  encode : Record → ByteString
  parse : ByteString → Option Record
  newline_not_mem : ∀ record, newline ∉ encode record
  parse_nil : parse [] = none
  parse_encode : ∀ record, parse (encode record) = some record
  parse_take : ∀ record n, n < (encode record).length → parse ((encode record).take n) = none

theorem linesFrom_append_newline (line file rest : ByteString) :
    linesFrom line (file ++ newline :: rest) = linesFrom line file ++ linesOf rest := by
  induction file generalizing line with
  | nil => simp [linesFrom, linesOf]
  | cons byte file ih =>
    rw [cons_append, linesFrom, linesFrom]
    split
    · rw [ih, cons_append]
    · rw [ih]

theorem linesFrom_of_newline_not_mem (line : ByteString) {bytes : ByteString}
    (h : newline ∉ bytes) : linesFrom line bytes = [line ++ bytes] := by
  induction bytes generalizing line with
  | nil => simp [linesFrom]
  | cons byte bytes ih =>
    have hbyte : byte ≠ newline := fun heq => h (heq ▸ mem_cons_self)
    rw [linesFrom, if_neg hbyte, ih _ fun hmem => h (mem_cons_of_mem _ hmem), append_assoc]
    rfl

theorem isTerminated_append_terminator (file : ByteString) :
    IsTerminated (file ++ terminator file) := by
  unfold terminator
  split
  next h =>
    rw [append_nil]
    exact h
  · exact .inr getLast?_concat

theorem isTerminated_append_line (file line : ByteString) :
    IsTerminated (file ++ (line ++ [newline])) := by
  rw [← append_assoc]
  exact .inr getLast?_concat

namespace LineFormat

variable {Record : Type} (format : LineFormat Record)

/-- The records that the lines parse to. -/
def records (file : ByteString) : List Record := (linesOf file).filterMap format.parse

def line (record : Record) : ByteString := format.encode record ++ [newline]

@[simp] theorem records_nil : format.records [] = [] := by
  simp [records, linesOf, linesFrom, format.parse_nil]

theorem records_append_newline (file rest : ByteString) :
    format.records (file ++ newline :: rest) = format.records file ++ format.records rest := by
  rw [records, linesOf, linesFrom_append_newline, filterMap_append]
  rfl

theorem records_concat_newline (file : ByteString) :
    format.records (file ++ [newline]) = format.records file := by
  rw [records_append_newline, records_nil, append_nil]

theorem records_of_newline_not_mem {bytes : ByteString} (h : newline ∉ bytes) :
    format.records bytes = (format.parse bytes).toList := by
  rw [records, linesOf, linesFrom_of_newline_not_mem [] h]
  cases hparse : format.parse bytes with
  | none | some => simp [hparse]

/-- Behind a complete line, records are read on their own. -/
theorem records_append {file : ByteString} (hfile : IsTerminated file) (rest : ByteString) :
    format.records (file ++ rest) = format.records file ++ format.records rest := by
  rcases hfile with rfl | hlast
  · rw [records_nil]
    rfl
  · rw [← dropLast_append_getLast? newline hlast, append_assoc, singleton_append,
      records_append_newline, records_concat_newline]

theorem records_append_terminator (file : ByteString) :
    format.records (file ++ terminator file) = format.records file := by
  unfold terminator
  split
  · rw [append_nil]
  · exact format.records_concat_newline file

theorem records_encode (record : Record) : format.records (format.encode record) = [record] := by
  rw [records_of_newline_not_mem _ (format.newline_not_mem record), format.parse_encode]
  rfl

theorem records_line (record : Record) : format.records (format.line record) = [record] := by
  rw [line, records_concat_newline, records_encode]

theorem length_line (record : Record) :
    (format.line record).length = (format.encode record).length + 1 := by
  simp [line]

/-- A line that is cut within its record holds no record. -/
theorem records_take_line_of_lt {record : Record} {n : ℕ} (h : n < (format.encode record).length) :
    format.records ((format.line record).take n) = [] := by
  rw [line, take_append_of_le_length (Nat.le_of_lt h), records_of_newline_not_mem,
    format.parse_take record n h]
  · rfl
  · exact fun hmem => format.newline_not_mem record (mem_of_mem_take hmem)

/-- A line that lacks only its newline holds its record. -/
theorem records_take_line_of_le {record : Record} {n : ℕ} (h : (format.encode record).length ≤ n) :
    format.records ((format.line record).take n) = [record] := by
  rcases Nat.lt_or_eq_of_le h with hlt | rfl
  · rw [take_of_length_le (by rw [length_line]; omega), records_line]
  · rw [line, take_left, records_encode]

end LineFormat

end Foundation
