import Rexux.Foundation.Dict
import Rexux.Rollout.ReverseScanner

/-!
# The names of threads

The index is a file of records, one for every name that a thread was given.  Two of its
readers walk it from the end, as the scanner returns the records, and take the first record
of a thread.  The third walks it from the start and passes over blank names.
-/

namespace Rexux.Rollout

open Foundation List

variable {ThreadId : Type}

structure SessionIndexEntry (ThreadId : Type) where
  id : ThreadId
  threadName : Text

abbrev SessionIndex (ThreadId : Type) := List (SessionIndexEntry ThreadId)

/-- The file of an index, a line for every record. -/
def SessionIndex.file (line : SessionIndexEntry ThreadId → ByteString)
    (index : SessionIndex ThreadId) : ByteString :=
  index.flatMap (line · ++ [newline])

section File

variable {Error : Type} (scan : Scan (SessionIndexEntry ThreadId) Error)
  (line : SessionIndexEntry ThreadId → ByteString)

/-- Every record is written on a line that the scanner parses back. -/
def ReadsLines : Prop :=
  ∀ entry, newline ∉ line entry ∧ scan.judge (line entry) = some (.parsed entry)

/-- The records that a scan of the file visits; those that do not parse are passed over. -/
def visitedEntries (file : ByteString) : SessionIndex ThreadId :=
  (scan.outcomes file).filterMap fun outcome =>
    match outcome with
    | .parsed entry => some entry
    | .rejected _ => none

variable {scan line}

/-- Scanning the file visits the entries from the last to the first. -/
theorem visitedEntries_file (hreads : ReadsLines scan line) (index : SessionIndex ThreadId) :
    visitedEntries scan (index.file line) = index.reverse := by
  induction index with
  | nil => simp [SessionIndex.file, visitedEntries]
  | cons entry index ih =>
    unfold visitedEntries SessionIndex.file at ih ⊢
    rw [flatMap_cons, append_assoc, singleton_append, Scan.outcomes_append_newline,
      filterMap_append, ih, Scan.outcomes_of_newline_not_mem (hreads entry).1, (hreads entry).2,
      reverse_cons]
    rfl

end File

inductive IndexCall (ThreadId : Type)
  | appendThreadName (id : ThreadId) (name : Text)
  | removeThreadNameEntries (id : ThreadId)

namespace SessionIndex

variable [DecidableEq ThreadId]

def call (index : SessionIndex ThreadId) : IndexCall ThreadId → SessionIndex ThreadId
  | .appendThreadName id name => index ++ [⟨id, name⟩]
  | .removeThreadNameEntries id => index.filter (·.id ≠ id)

def run (calls : List (IndexCall ThreadId)) : SessionIndex ThreadId := calls.foldl call []

variable (index : SessionIndex ThreadId)

def scanIndexFromEnd (visited : SessionIndexEntry ThreadId → Bool) :
    Option (SessionIndexEntry ThreadId) :=
  index.reverse.find? visited

def findThreadNameById (id : ThreadId) : Option Text :=
  (index.scanIndexFromEnd (·.id = id)).map (·.threadName)

/-- Later names replace earlier ones, blank names do not. -/
def findThreadNamesByIds (ids : List ThreadId) : Dict ThreadId Text :=
  index.foldl (fun names entry =>
    if trim entry.threadName ≠ [] ∧ entry.id ∈ ids then
      names.insert entry.id (trim entry.threadName)
    else names) .empty

/-- Only the latest name of a thread counts. -/
def streamFrom (name : Text) : List ThreadId → SessionIndex ThreadId → List ThreadId
  | _, [] => []
  | seen, entry :: older =>
    if entry.id ∈ seen then streamFrom name seen older
    else if entry.threadName = name then entry.id :: streamFrom name (entry.id :: seen) older
    else streamFrom name (entry.id :: seen) older

def streamThreadIdsFromEndByName (name : Text) : List ThreadId := streamFrom name [] index.reverse

end SessionIndex

variable [DecidableEq ThreadId]

/-- The last of the names that are kept since the entries of the thread were removed. -/
def lastName (kept : Text → Bool) (id : ThreadId) (calls : List (IndexCall ThreadId)) :
    Option Text :=
  calls.foldl (fun last call =>
    match call with
    | .appendThreadName other name => if other = id ∧ kept name then some name else last
    | .removeThreadNameEntries other => if other = id then none else last) none

def latestName (id : ThreadId) (calls : List (IndexCall ThreadId)) : Option Text :=
  lastName (fun _ => true) id calls

open SessionIndex

variable {id : ThreadId} {calls : List (IndexCall ThreadId)} {name : Text}

theorem find?_reverse_run (kept : Text → Bool) :
    ((run calls).reverse.find? fun entry => entry.id = id ∧ kept entry.threadName).map
      (·.threadName) = lastName kept id calls := by
  induction calls using reverseRecOn with
  | nil => rfl
  | append_singleton calls call ih =>
    rw [run, foldl_append, lastName, foldl_append, ← run, ← lastName, ← ih]
    cases call with
    | appendThreadName other name =>
      simp [SessionIndex.call, find?_cons]
      grind
    | removeThreadNameEntries other =>
      simp [SessionIndex.call, ← filter_reverse, find?_filter]
      grind

theorem lastName_of_latestName {kept : Text → Bool}
    (h : ∀ name, latestName id calls = some name → kept name) :
    lastName kept id calls = latestName id calls := by
  induction calls using reverseRecOn with
  | nil => rfl
  | append_singleton calls call ih =>
    simp only [latestName, lastName, foldl_append, foldl_cons, foldl_nil] at h ih ⊢
    cases call with
    | _ => grind

theorem get?_findThreadNamesByIds (ids : List ThreadId) :
    ((run calls).findThreadNamesByIds ids).get? id =
      if id ∈ ids then (lastName (trim · ≠ []) id calls).map trim else none := by
  rw [← find?_reverse_run, findThreadNamesByIds]
  induction run calls using reverseRecOn with
  | nil => simp [Dict.get?, Dict.empty]
  | append_singleton index entry ih =>
    rw [foldl_append, foldl_cons, foldl_nil, reverse_append, reverse_singleton, singleton_append,
      find?_cons]
    grind [Dict.get?_insert]

theorem mem_streamFrom {seen : List ThreadId} {index : SessionIndex ThreadId} :
    id ∈ streamFrom name seen index ↔
      id ∉ seen ∧ (index.find? (·.id = id)).map (·.threadName) = some name := by
  fun_induction streamFrom name seen index with
  | case1 => simp
  | _ => grind

theorem nodup_streamFrom (seen : List ThreadId) (index : SessionIndex ThreadId) :
    (streamFrom name seen index).Nodup := by
  fun_induction streamFrom name seen index with
  | case1 => exact nodup_nil
  | case3 => simp_all [mem_streamFrom]
  | _ => assumption

/-- A scan of the file visits the records that the readers from the end walk.  These know
every thread by its latest name.  The reader from the start agrees exactly if no thread with a
blank latest name had another name before. -/
theorem index_keeps_latest_names (calls : List (IndexCall ThreadId)) :
    (∀ {Error : Type} (scan : Scan (SessionIndexEntry ThreadId) Error)
        (line : SessionIndexEntry ThreadId → ByteString), ReadsLines scan line →
      visitedEntries scan ((run calls).file line) = (run calls).reverse) ∧
    (∀ id, (run calls).findThreadNameById id = latestName id calls) ∧
    (∀ ids, (∀ id, ((run calls).findThreadNamesByIds ids).get? id =
        if id ∈ ids then ((latestName id calls).map trim).filter (· ≠ []) else none) ↔
      ∀ id ∈ ids, ∀ name, latestName id calls = some name → trim name = [] →
        lastName (trim · ≠ []) id calls = none) ∧
    ∀ name, ((run calls).streamThreadIdsFromEndByName name).Nodup ∧
      ∀ id, id ∈ (run calls).streamThreadIdsFromEndByName name ↔
        latestName id calls = some name := by
  have hlatest (id : ThreadId) : ((run calls).reverse.find? (·.id = id)).map (·.threadName) =
      latestName id calls := by
    rw [latestName, ← find?_reverse_run]
    simp
  refine ⟨fun _ _ hreads => visitedEntries_file hreads _, hlatest, fun ids => ?_,
    fun name => ⟨nodup_streamFrom _ _, fun id => ?_⟩⟩
  · simp only [get?_findThreadNamesByIds]
    refine forall_congr' fun id => ?_
    by_cases hid : id ∈ ids
    · cases hname : latestName id calls with
      | none =>
        rw [lastName_of_latestName (by simp [hname]), hname]
        simp
      | some name =>
        by_cases hblank : trim name = []
        · simp [hblank, Option.filter]
        · rw [lastName_of_latestName (by simp [hname, hblank]), hname]
          simp [hblank, Option.filter]
    · simp [hid]
  · rw [streamThreadIdsFromEndByName, mem_streamFrom, hlatest]
    simp

/-- A thread is named and its name is then taken back with a blank one. -/
theorem blank_name_passed_over :
    let calls := [.appendThreadName 1 "name".toList, .appendThreadName 1 " ".toList]
    (run calls).findThreadNameById 1 = some " ".toList ∧
      ((run calls).findThreadNamesByIds [1]).get? 1 = some "name".toList := by
  decide

end Rexux.Rollout
