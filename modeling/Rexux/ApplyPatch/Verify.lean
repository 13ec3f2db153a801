import Rexux.Foundation.StorePlan
import Rexux.ApplyPatch.Apply

/-!
# Verified patches

Before a patch is applied it is verified: `tryVerifyApplyPatchArgs` computes
the changes the patch would make, reading every file as it is before the patch.
`applyHunksToFiles` then works through the hunks one after the other.

Over a file system in memory, in which nothing fails, every hunk is an
operation on a store.  What verification accepts is a plan and what application
does is a run, so the two agree exactly when the plan is independent.
-/

namespace Rexux.ApplyPatch

open Foundation List StoreOp Session Option

/-! ## Verification -/

/-- What verification says a patch will do to a file. -/
inductive ApplyPatchFileChange (Path : Type*) where
  | add (content : Text)
  | delete (content : Text)
  | update (unifiedDiff : Text) (movePath : Option Path) (newContent : Text)
  deriving DecidableEq, Repr

/-- The map of changes is a list of its entries, with no key twice. -/
structure ApplyPatchAction (Path : Type*) where
  changes : List (Path × ApplyPatchFileChange Path)
  updateFileMode : ApplyPatchFileUpdateMode
  patch : Text
  cwd : Path
  deriving DecidableEq, Repr

/-- The old and new contents of an update, and their difference. -/
structure ApplyPatchFileUpdate where
  unifiedDiff : Text
  originalContent : Text
  content : Text
  deriving DecidableEq, Repr

section Model

variable {σ Path E : Type*} [DecidableEq Path] (fs : ExecutorFileSystem σ Path)
  (ops : PathOps Path E)

-- The diff of two texts with a number of context lines.
variable (textDiff : Text → Text → ℕ → Text)

def unifiedDiffFromChunksWithMode (path : Path) (chunks : List UpdateFileChunk)
    (mode : ApplyPatchFileUpdateMode) (files : σ) :
    Except (ApplyPatchError E) ApplyPatchFileUpdate × σ :=
  match deriveNewContentsFromChunks fs ops path chunks mode true files with
  | (.error e, files) => (.error e, files)
  | (.ok applied, files) =>
    (.ok ⟨textDiff applied.originalContents applied.newContents 1,
      applied.originalContents, applied.newContents⟩, files)

/-- The directory of the patch, below the one of the call. -/
def effectiveCwd (cwd : Path) (workdir : Option Text) : Except E Path :=
  match workdir with
  | none => .ok cwd
  | some dir => ops.join cwd dir

def joinMovePath (cwd : Path) (movePath : Option Text) : Except E (Option Path) :=
  match movePath with
  | none => .ok none
  | some path => (ops.join cwd path).map some

/-- The entry of a hunk, computed from the files as they are before the patch. -/
def verifyHunk (mode : ApplyPatchFileUpdateMode) (cwd : Path) (hunk : Hunk)
    (changes : List (Path × ApplyPatchFileChange Path)) (files : σ) :
    Except (ApplyPatchError E) (List (Path × ApplyPatchFileChange Path)) × σ :=
  match hunk.resolvePath ops cwd with
  | .error e => (.error (.pathUri e), files)
  | .ok path =>
    if path ∈ changes.map Prod.fst then
      (.error (.parseError (.invalidPatchError
        ("multiple operations target ".toList ++ ops.inferredNativePathString path))), files)
    else
      match hunk with
      | .addFile _ contents => (.ok (changes ++ [(path, .add contents)]), files)
      | .deleteFile _ =>
        match fs.readFileText path true files with
        | (.error source, files) =>
          (.error (.ioError ("Failed to read ".toList ++
            ops.inferredNativePathString path) source), files)
        | (.ok content, files) => (.ok (changes ++ [(path, .delete content)]), files)
      | .updateFile _ movePath chunks =>
        match unifiedDiffFromChunksWithMode fs ops textDiff path chunks mode
            files with
        | (.error e, files) => (.error e, files)
        | (.ok update, files) =>
          match joinMovePath ops cwd movePath with
          | .error e => (.error (.pathUri e), files)
          | .ok movePath =>
            (.ok (changes ++ [(path,
              .update update.unifiedDiff movePath update.content)]),
              files)

/-- The entries of all hunks; a second hunk for a path is refused. -/
def verifyHunks (mode : ApplyPatchFileUpdateMode) (cwd : Path) :
    List Hunk → List (Path × ApplyPatchFileChange Path) → σ →
      Except (ApplyPatchError E) (List (Path × ApplyPatchFileChange Path)) × σ
  | [], changes, files => (.ok changes, files)
  | hunk :: hunks, changes, files =>
    match verifyHunk fs ops textDiff mode cwd hunk changes files with
    | (.error e, files) => (.error e, files)
    | (.ok changes, files) => verifyHunks mode cwd hunks changes files

/-- What verification promises for a parsed patch. -/
def tryVerifyApplyPatchArgs (args : ApplyPatchArgs) (cwd : Path)
    (mode : ApplyPatchFileUpdateMode) (files : σ) :
    Except (ApplyPatchError E) (ApplyPatchAction Path) × σ :=
  match effectiveCwd ops cwd args.workdir with
  | .error e => (.error (.pathUri e), files)
  | .ok cwd =>
    match verifyHunks fs ops textDiff mode cwd args.hunks [] files with
    | (.error e, files) => (.error e, files)
    | (.ok changes, files) => (.ok ⟨changes, mode, args.patch, cwd⟩, files)

end Model

section Changes

variable {Path : Type*}

/-- The entry that verification makes for an operation. -/
def IsVerifiedAs (initial : Path → Option Text) :
    StoreOp Path Text → Path × ApplyPatchFileChange Path → Prop
  | .add key value, (path, .add content) => path = key ∧ content = value
  | .delete key, (path, .delete content) => path = key ∧ initial key = some content
  | .edit key derive, (path, .update _ none content) =>
    path = key ∧ (initial key).bind derive = some content
  | .move key destination derive, (path, .update _ (some movePath) content) =>
    path = key ∧ movePath = destination ∧ (initial key).bind derive = some content
  | _, _ => False

/-- What an entry promises is so in the end. -/
def EntryHolds (final : Path → Option Text) : Path × ApplyPatchFileChange Path → Prop
  | (path, .add content) => final path = some content
  | (path, .delete _) => final path = none
  | (path, .update _ none content) => final path = some content
  | (path, .update _ (some movePath) content) => final movePath = some content ∧ final path = none

/-- The paths an entry speaks about. -/
def entryPaths : Path × ApplyPatchFileChange Path → List Path
  | (path, .update _ (some movePath) _) => [path, movePath]
  | (path, _) => [path]

/-- The files have changed as the verified changes say, and nowhere else. -/
structure ChangesHold (changes : List (Path × ApplyPatchFileChange Path))
    (initial final : Path → Option Text) : Prop where
  entries : ∀ entry ∈ changes, EntryHolds final entry
  others : ∀ path, (∀ entry ∈ changes, path ∉ entryPaths entry) → final path = initial path

theorem forall_mem_iff_of_forall₂ {α β : Type*} {R : α → β → Prop}
    {p : α → Prop} {q : β → Prop} (hiff : ∀ a b, R a b → (p a ↔ q b))
    {l : List α} {m : List β} (h : List.Forall₂ R l m) : (∀ a ∈ l, p a) ↔ ∀ b ∈ m, q b := by
  induction h with
  | nil => simp
  | cons hab _ ih => rw [forall_mem_cons, forall_mem_cons, ih, hiff _ _ hab]

variable {entry : Path × ApplyPatchFileChange Path} {initial : Path → Option Text}
  {op : StoreOp Path Text}

section

variable (h : IsVerifiedAs initial op entry)
include h

theorem IsVerifiedAs.key_eq : op.source = entry.1 := by
  revert h
  fun_cases IsVerifiedAs initial op entry <;> intro h
  iterate 4 exact h.1.symm
  · exact h.elim

theorem IsVerifiedAs.plannable : op.Plannable initial := by
  revert h
  fun_cases IsVerifiedAs initial op entry <;> intro h
  · rfl
  iterate 2 exact isSome_iff_exists.mpr ⟨_, h.2⟩
  · exact isSome_iff_exists.mpr ⟨_, h.2.2⟩
  · exact h.elim

theorem IsVerifiedAs.entryHolds_iff (final : Path → Option Text) :
    ((∀ key, op.target = some key → final key = op.planned initial) ∧
      ∀ key, op.removes = some key → final key = none) ↔ EntryHolds final entry := by
  revert h
  fun_cases IsVerifiedAs initial op entry <;> intro h
  · obtain ⟨rfl, rfl⟩ := h
    simp [target, removes, planned, EntryHolds]
  · obtain ⟨rfl, -⟩ := h
    simp [target, removes, EntryHolds]
  · obtain ⟨rfl, hcontent⟩ := h
    simp [target, removes, planned, EntryHolds, hcontent]
  · obtain ⟨rfl, rfl, hcontent⟩ := h
    simp [target, removes, planned, EntryHolds, hcontent]
  · exact h.elim

theorem IsVerifiedAs.touches_iff (path : Path) : op.Touches path ↔ path ∈ entryPaths entry := by
  revert h
  fun_cases IsVerifiedAs initial op entry <;> intro h
  · obtain ⟨rfl, rfl⟩ := h
    simp [StoreOp.Touches, target, removes, entryPaths, eq_comm]
  iterate 2
    · obtain ⟨rfl, -⟩ := h
      simp [StoreOp.Touches, target, removes, entryPaths, eq_comm]
  · obtain ⟨rfl, rfl, -⟩ := h
    simp [StoreOp.Touches, target, removes, entryPaths, eq_comm, or_comm]
  · exact h.elim

end

variable {entries : List (Path × ApplyPatchFileChange Path)} {plan : List (StoreOp Path Text)}
  (h : List.Forall₂ (IsVerifiedAs initial) plan entries)
include h

theorem accepted_of_isVerifiedAs
    (hnodup : (entries.map Prod.fst).Nodup) : Accepted initial plan where
  distinct := by
    have hkeys : plan.map StoreOp.source = entries.map Prod.fst := by
      rw [← List.forall₂_eq_eq_eq, List.forall₂_map_left_iff, List.forall₂_map_right_iff]
      exact h.imp fun _ _ => IsVerifiedAs.key_eq
    rw [hkeys]
    exact hnodup
  plannable := by
    rw [forall_mem_iff_of_forall₂ (q := fun _ => True) _ h]
    · simp
    · intro op entry hentry
      simp [hentry.plannable]

theorem predicts_iff_changesHold {final : Path → Option Text} :
    Predicts initial plan final ↔ ChangesHold entries initial final := by
  have hentries := forall_mem_iff_of_forall₂
    (fun op entry hentry => IsVerifiedAs.entryHolds_iff hentry final) h
  have hothers : ∀ path, (∀ op ∈ plan, ¬ op.Touches path) ↔
      ∀ entry ∈ entries, path ∉ entryPaths entry := fun path =>
    forall_mem_iff_of_forall₂ (fun op entry hentry => not_congr (hentry.touches_iff path)) h
  constructor
  · intro hpredicts
    refine ⟨hentries.mp fun op hop => ⟨hpredicts.written op hop, hpredicts.removed op hop⟩, ?_⟩
    intro path hpath
    exact hpredicts.unchanged path ((hothers path).mpr hpath)
  · intro hchanges
    have hplan := hentries.mpr hchanges.entries
    exact ⟨fun op hop => (hplan op hop).1, fun op hop => (hplan op hop).2,
      fun path hpath => hchanges.others path ((hothers path).mp hpath)⟩

end Changes

section Memory

variable {Path E : Type*} [DecidableEq Path]

def absentFile : IoFailure := ⟨.notFound, []⟩

/-- A file system without faults. -/
def memoryFileSystem : ExecutorFileSystem (Path → Option Text) Path where
  readFileText path _ files :=
    match files path with
    | some content => (.ok content, files)
    | none => (.error absentFile, files)
  writeFile path content _ files := (.ok (), Function.update files path (some content))
  createDirectory _ _ files := (.ok (), files)
  getMetadata path _ files :=
    match files path with
    | some _ => (.ok ⟨false, true, false⟩, files)
    | none => (.error absentFile, files)
  remove path _ files :=
    match files path with
    | some _ => (.ok (), Function.update files path none)
    | none => (.error absentFile, files)

def deriveContent (ops : PathOps Path E) (mode : ApplyPatchFileUpdateMode)
    (path : Path) (chunks : List UpdateFileChunk) (original : Text) : Option Text :=
  (newContentsFromChunks (ops.inferredNativePathString path) chunks mode original).toOption

/-- The hunk as an operation of a store of texts. -/
def Hunk.toOp (ops : PathOps Path E) (mode : ApplyPatchFileUpdateMode)
    (cwd : Path) (hunk : Hunk) : Option (StoreOp Path Text) :=
  (hunk.resolvePath ops cwd).toOption.bind fun path =>
    match hunk with
    | .addFile _ contents => some (.add path contents)
    | .deleteFile _ => some (.delete path)
    | .updateFile _ none chunks => some (.edit path (deriveContent ops mode path chunks))
    | .updateFile _ (some destination) chunks =>
      (ops.join cwd destination).toOption.map fun destination =>
        .move path destination (deriveContent ops mode path chunks)

/-- The operations of a patch. -/
def planOf (ops : PathOps Path E) (mode : ApplyPatchFileUpdateMode)
    (cwd : Path) (hunks : List Hunk) : List (StoreOp Path Text) :=
  hunks.filterMap (Hunk.toOp ops mode cwd)

abbrev MemorySession (Path : Type*) := Session (Path → Option Text) Path

/-- The files if the patch was applied. -/
def filesOnSuccess {ε α : Type*} :
    Except ε α × Session (Path → Option Text) Path → Option (Path → Option Text)
  | (.ok _, session) => some session.files
  | (.error _, _) => none

variable (ops : PathOps Path E) (path : Path)

theorem noteExistingPathDeltaSupport_files_memory (follow : Bool) (session : MemorySession Path) :
    (noteExistingPathDeltaSupport memoryFileSystem path follow session).files = session.files := by
  simp only [noteExistingPathDeltaSupport, memoryFileSystem]
  cases session.files path <;> rfl

theorem readOptionalFileTextForDelta_files_memory (follow : Bool) (session : MemorySession Path) :
    (readOptionalFileTextForDelta memoryFileSystem path follow
      session).2.files = session.files := by
  have hnote := noteExistingPathDeltaSupport_files_memory path follow session
  simp only [readOptionalFileTextForDelta]
  simp only [memoryFileSystem] at hnote ⊢
  rw [hnote]
  cases session.files path <;> rfl

theorem writeFileWithMissingParentRetry_memory (contents : Text) (follow : Bool)
    (files : Path → Option Text) :
    writeFileWithMissingParentRetry memoryFileSystem ops path contents follow files =
      (.ok (), Function.update files path (some contents)) := rfl

theorem removeForHunk_memory (context : Text) (expected : Option Text) (follow : Bool)
    (session : MemorySession Path) :
    removeForHunk (E := E) memoryFileSystem path context expected follow session =
      match session.files path with
      | none => (.error (.io (some context) absentFile), session)
      | some _ =>
        (.ok (), session.withFiles (Function.update session.files path none)) := by
  simp only [removeForHunk, ensureNotDirectory, memoryFileSystem]
  cases hfile : session.files path with
  | none => rfl
  | some content => simp only [Bool.false_eq_true, if_false, hfile]

theorem applyAdd_memory (contents : Text) (follow : Bool) (session : MemorySession Path) :
    filesOnSuccess (applyAdd memoryFileSystem ops path contents follow session) =
      (add path contents).step session.files := by
  have hread := readOptionalFileTextForDelta_files_memory path follow session
  simp only [applyAdd]
  rw [hread]
  rfl

theorem applyDelete_memory (follow : Bool) (session : MemorySession Path) :
    filesOnSuccess (applyDelete memoryFileSystem ops path follow session) =
      (delete path).step session.files := by
  have hnote := noteExistingPathDeltaSupport_files_memory path follow session
  simp only [applyDelete, removeForHunk_memory]
  generalize noteExistingPathDeltaSupport memoryFileSystem path follow session = noted at hnote ⊢
  rw [← hnote, step]
  simp only [memoryFileSystem]
  cases hfile : noted.files path with
  | none | some content =>
    simp only [withFiles, keepExact, hfile]
    rfl

/-- Deriving contents reads the file and leaves the store alone. -/
theorem deriveNewContentsFromChunks_memory (chunks : List UpdateFileChunk)
    (mode : ApplyPatchFileUpdateMode) (follow : Bool) (files : Path → Option Text) :
    (∃ e, deriveNewContentsFromChunks memoryFileSystem ops path chunks mode follow files =
        (.error e, files) ∧ (files path).bind (deriveContent ops mode path chunks) = none) ∨
      ∃ applied, deriveNewContentsFromChunks memoryFileSystem ops path chunks mode follow files =
          (.ok applied, files) ∧ (files path).isSome ∧
        (files path).bind (deriveContent ops mode path chunks) = some applied.newContents := by
  simp only [deriveNewContentsFromChunks, memoryFileSystem]
  cases files path with
  | none => exact .inl ⟨_, rfl, rfl⟩
  | some content =>
    simp only [bind_some, deriveContent]
    cases newContentsFromChunks (ops.inferredNativePathString path) chunks mode content with
    | error => exact .inl ⟨_, rfl, rfl⟩
    | ok => exact .inr ⟨_, rfl, rfl, rfl⟩

theorem moveUpdate_memory (path destUri : Path) (applied : AppliedPatch) (follow : Bool)
    (session : MemorySession Path) (hsource : (session.files path).isSome) :
    filesOnSuccess (moveUpdate memoryFileSystem ops path destUri applied follow session) =
      some (Function.update (Function.update session.files destUri
        (some applied.newContents)) path none) := by
  have hread := readOptionalFileTextForDelta_files_memory destUri follow session
  have hsome : (Function.update session.files destUri (some applied.newContents) path).isSome := by
    rw [Function.update_apply]
    split_ifs
    · rfl
    · exact hsource
  simp only [moveUpdate, writeFileWithMissingParentRetry_memory, removeForHunk_memory]
  obtain ⟨content, hcontent⟩ := isSome_iff_exists.mp hsome
  simp only [withFiles, pushChange, hread]
  rw [hcontent]
  rfl

theorem applyUpdate_memory (options : ApplyPatchOptions) (cwd path : Path)
    (chunks : List UpdateFileChunk) (session : MemorySession Path) :
    filesOnSuccess (applyUpdate memoryFileSystem ops options cwd path none chunks session) =
      (edit path (deriveContent ops options.updateFileMode path chunks)).step session.files := by
  have hnote := noteExistingPathDeltaSupport_files_memory path options.followSymlinks session
  simp only [applyUpdate]
  generalize noteExistingPathDeltaSupport memoryFileSystem path
    options.followSymlinks session = noted at hnote ⊢
  rw [step, ← hnote]
  rcases deriveNewContentsFromChunks_memory ops path chunks options.updateFileMode
    options.followSymlinks noted.files with ⟨e, h, hnone⟩ | ⟨applied, h, -, hsome⟩
  · rw [h, hnone]
    rfl
  · rw [h, hsome]
    rfl

theorem applyUpdate_move_memory
    (options : ApplyPatchOptions) (cwd path destUri : Path) (dest : Text)
    (chunks : List UpdateFileChunk) (session : MemorySession Path)
    (hdest : ops.join cwd dest = .ok destUri) :
    filesOnSuccess (applyUpdate memoryFileSystem ops options cwd path (some dest) chunks session) =
      (move path destUri (deriveContent ops options.updateFileMode path chunks)).step
          session.files := by
  have hnote := noteExistingPathDeltaSupport_files_memory path options.followSymlinks session
  simp only [applyUpdate, hdest]
  generalize noteExistingPathDeltaSupport memoryFileSystem path
    options.followSymlinks session = noted at hnote ⊢
  rw [step, ← hnote]
  rcases deriveNewContentsFromChunks_memory ops path chunks options.updateFileMode
    options.followSymlinks noted.files with ⟨e, h, hnone⟩ | ⟨applied, h, hfile, hsome⟩
  · rw [h, hnone]
    rfl
  · rw [h, hsome]
    exact moveUpdate_memory ops path destUri applied options.followSymlinks
      (noted.withFiles noted.files) hfile

variable {cwd : Path} {hunk : Hunk} {options : ApplyPatchOptions}

/-- Applied to a file system in memory, a hunk is its store operation. -/
theorem applyHunk_memory
    {op : StoreOp Path Text} (hop : hunk.toOp ops options.updateFileMode cwd = some op)
    (session : MemorySession Path) :
    filesOnSuccess (applyHunk memoryFileSystem ops options cwd hunk session) =
      op.step session.files := by
  obtain ⟨path, hpath, hop⟩ := bind_eq_some_iff.mp hop
  have hresolve : hunk.resolvePath ops cwd = .ok path := toOption_eq_some_iff.mp hpath
  simp only [applyHunk, hresolve]
  cases hunk with
  | addFile name contents =>
    obtain rfl := some.inj hop
    exact applyAdd_memory ops path contents options.followSymlinks session
  | deleteFile name =>
    obtain rfl := some.inj hop
    exact applyDelete_memory ops path options.followSymlinks session
  | updateFile name movePath chunks =>
    cases movePath with
    | none =>
      obtain rfl := some.inj hop
      exact applyUpdate_memory ops options cwd path chunks session
    | some dest =>
      obtain ⟨destUri, hdest, rfl⟩ := map_eq_some_iff.mp hop
      exact applyUpdate_move_memory ops options cwd path destUri dest chunks
        session (toOption_eq_some_iff.mp hdest)

variable {hunks : List Hunk}

/-- So are the hunks of a patch, one after the other. -/
theorem applyHunkList_memory
    (hplanned : ∀ hunk ∈ hunks, (hunk.toOp ops options.updateFileMode cwd).isSome)
    (affected : AffectedPaths) (session : MemorySession Path) :
    filesOnSuccess (applyHunkList memoryFileSystem ops options cwd hunks affected session) =
      runOps (planOf ops options.updateFileMode cwd hunks) session.files := by
  induction hunks generalizing affected session with
  | nil => rfl
  | cons hunk hunks ih =>
    obtain ⟨op, hop⟩ := isSome_iff_exists.mp (hplanned hunk mem_cons_self)
    have hrest : ∀ other ∈ hunks, (other.toOp ops options.updateFileMode cwd).isSome :=
      fun other hother => hplanned other (mem_cons_of_mem hunk hother)
    have hstep := applyHunk_memory ops hop session
    rw [planOf, filterMap_cons_some hop, runOps_cons, ← hstep]
    simp only [applyHunkList]
    rcases applyHunk memoryFileSystem ops options cwd hunk session with ⟨e | u, after⟩
    · rfl
    · exact ih hrest (affected.record hunk) after

/-! ## Verification reads off the plan -/

variable (textDiff : Text → Text → ℕ → Text) {files files' : Path → Option Text}
  {mode : ApplyPatchFileUpdateMode}

theorem unifiedDiffFromChunksWithMode_memory {path : Path} {chunks : List UpdateFileChunk}
    {update : ApplyPatchFileUpdate}
    (h : unifiedDiffFromChunksWithMode memoryFileSystem ops textDiff path chunks
      mode files = (.ok update, files')) :
    files' = files ∧
      (files path).bind (deriveContent ops mode path chunks) = some update.content := by
  simp only [unifiedDiffFromChunksWithMode] at h
  rcases deriveNewContentsFromChunks_memory ops path chunks mode true files with
    ⟨e, hresult, -⟩ | ⟨applied, hresult, -, hsome⟩
  · rw [hresult] at h
    cases h
  · rw [hresult] at h
    cases h
    exact ⟨rfl, hsome⟩

variable {changes changes' : List (Path × ApplyPatchFileChange Path)}

/-- Verifying reads only, and records what the store operation is planned to do. -/
theorem verifyHunk_memory
    (h : verifyHunk memoryFileSystem ops textDiff mode cwd hunk changes files =
      (.ok changes', files')) :
    files' = files ∧
      ∃ op entry, hunk.toOp ops mode cwd = some op ∧
        IsVerifiedAs files op entry ∧ changes' = changes ++ [entry] ∧
        entry.1 ∉ changes.map Prod.fst := by
  simp only [verifyHunk] at h
  cases hresolve : hunk.resolvePath ops cwd with
  | error e =>
    rw [hresolve] at h
    cases h
  | ok path =>
    simp only [hresolve] at h
    by_cases hnew : path ∈ changes.map Prod.fst
    · rw [if_pos hnew] at h
      cases h
    · rw [if_neg hnew] at h
      cases hunk with
      | addFile name contents =>
        cases h
        exact ⟨rfl, .add path contents, (path, .add contents),
          by rw [Hunk.toOp, hresolve]; rfl, ⟨rfl, rfl⟩, rfl, hnew⟩
      | deleteFile name =>
        simp only [memoryFileSystem] at h
        cases hfile : files path with
        | none => simp [hfile] at h
        | some content =>
          rw [hfile] at h
          cases h
          exact ⟨rfl, .delete path, (path, .delete content),
            by rw [Hunk.toOp, hresolve]; rfl, ⟨rfl, hfile⟩, rfl, hnew⟩
      | updateFile name movePath chunks =>
        rcases hupdate : unifiedDiffFromChunksWithMode memoryFileSystem ops
          textDiff path chunks mode files with ⟨e | update, after⟩
        · simp [hupdate] at h
        · obtain ⟨rfl, hcontent⟩ := unifiedDiffFromChunksWithMode_memory ops textDiff hupdate
          simp only [hupdate] at h
          cases movePath with
          | none =>
            cases h
            exact ⟨rfl, .edit path (deriveContent ops mode path chunks),
              (path, .update update.unifiedDiff none update.content),
              by rw [Hunk.toOp, hresolve]; rfl, ⟨rfl, hcontent⟩, rfl, hnew⟩
          | some dest =>
            cases hdest : ops.join cwd dest with
            | error e => simp [joinMovePath, hdest] at h
            | ok destUri =>
              simp only [joinMovePath, hdest] at h
              cases h
              refine ⟨rfl,
                .move path destUri (deriveContent ops mode path chunks),
                (path, .update update.unifiedDiff (some destUri) update.content),
                ?_, ⟨rfl, rfl, hcontent⟩, rfl, hnew⟩
              rw [Hunk.toOp, hresolve]
              simp only [Except.toOption, bind_some, hdest, map_some]

/-- The verified changes are the planned operations, with one entry for each path. -/
theorem verifyHunks_memory
    (h : verifyHunks memoryFileSystem ops textDiff mode cwd hunks changes files =
      (.ok changes', files')) (hnodup : (changes.map Prod.fst).Nodup) :
    (∀ hunk ∈ hunks, (hunk.toOp ops mode cwd).isSome) ∧
      (changes'.map Prod.fst).Nodup ∧
      ∃ entries, changes' = changes ++ entries ∧
        List.Forall₂ (IsVerifiedAs files) (planOf ops mode cwd hunks) entries := by
  induction hunks generalizing changes files with
  | nil =>
    cases h
    exact ⟨by simp, hnodup, [], by simp, List.Forall₂.nil⟩
  | cons hunk hunks ih =>
    simp only [verifyHunks] at h
    rcases hhunk : verifyHunk memoryFileSystem ops textDiff mode cwd hunk
      changes files with ⟨e | middle, after⟩
    · simp [hhunk] at h
    · rw [hhunk] at h
      obtain ⟨rfl, op, entry, hop, hentry, rfl, hnew⟩ := verifyHunk_memory ops textDiff hhunk
      have hnodup' : ((changes ++ [entry]).map Prod.fst).Nodup := by
        rw [map_append, map_singleton, ← concat_eq_append]
        exact hnodup.concat hnew
      obtain ⟨hsome, hkeys, entries, rfl, hentries⟩ := ih h hnodup'
      refine ⟨?_, hkeys, entry :: entries, by simp, ?_⟩
      · intro other hother
        obtain rfl | hother := mem_cons.mp hother
        · rw [hop]
          rfl
        · exact hsome other hother
      · rw [planOf, filterMap_cons_some hop]
        exact List.Forall₂.cons hentry hentries

/-- Applying the verified hunks succeeds and makes the verified changes. -/
def AppliesAsVerified (action : ApplyPatchAction Path) (hunks : List Hunk)
    (followSymlinks : Bool) (initial : Path → Option Text) : Prop :=
  ∃ affected session,
    applyHunksToFiles memoryFileSystem ops hunks
        ⟨action.updateFileMode, followSymlinks⟩ action.cwd ⟨initial, {}⟩ =
      (.ok affected, session) ∧
    ChangesHold action.changes initial session.files

theorem appliesAsVerified_iff_run {ops : PathOps Path E} {action : ApplyPatchAction Path}
    {followSymlinks : Bool} {initial : Path → Option Text}
    (hplanned : ∀ hunk ∈ hunks, (hunk.toOp ops action.updateFileMode action.cwd).isSome) :
    AppliesAsVerified ops action hunks followSymlinks initial ↔
      hunks ≠ [] ∧ ∃ final,
        runOps (planOf ops action.updateFileMode action.cwd hunks) initial = some final ∧
          ChangesHold action.changes initial final := by
  cases hunks with
  | nil => simp [AppliesAsVerified, applyHunksToFiles]
  | cons hunk hunks =>
    have hrun : filesOnSuccess (applyHunkList memoryFileSystem ops
            ⟨action.updateFileMode, followSymlinks⟩ action.cwd
            (hunk :: hunks) {} ⟨initial, {}⟩) =
          runOps (planOf ops action.updateFileMode action.cwd
            (hunk :: hunks)) initial :=
      applyHunkList_memory ops hplanned {} ⟨initial, {}⟩
    rw [← hrun]
    simp only [AppliesAsVerified, applyHunksToFiles]
    rcases applyHunkList memoryFileSystem ops
      ⟨action.updateFileMode, followSymlinks⟩ action.cwd (hunk :: hunks) {}
      ⟨initial, {}⟩ with ⟨e | affected, session⟩
    · simp [filesOnSuccess]
    · simp [filesOnSuccess]

/-- There is a hunk, and no move interferes with another hunk. -/
def MovesIndependently (args : ApplyPatchArgs) (cwd : Path)
    (mode : ApplyPatchFileUpdateMode) (initial : Path → Option Text) : Prop :=
  args.hunks ≠ [] ∧
    ∀ dir, effectiveCwd ops cwd args.workdir = .ok dir →
      Independent initial (planOf ops mode dir args.hunks)

/-- What verification accepts is applied as verified exactly when the moves do
not interfere. -/
theorem appliesAsVerified_iff_movesIndependently
    {args : ApplyPatchArgs} {cwd : Path} {mode : ApplyPatchFileUpdateMode}
    {initial files : Path → Option Text} {action : ApplyPatchAction Path}
    (haccepted : tryVerifyApplyPatchArgs memoryFileSystem ops textDiff args cwd
      mode initial = (.ok action, files)) (followSymlinks : Bool) :
    AppliesAsVerified ops action args.hunks followSymlinks initial ↔
      MovesIndependently ops args cwd mode initial := by
  simp only [tryVerifyApplyPatchArgs] at haccepted
  cases hdir : effectiveCwd ops cwd args.workdir with
  | error e => simp [hdir] at haccepted
  | ok dir =>
    rw [hdir] at haccepted
    rcases hverified : verifyHunks memoryFileSystem ops textDiff mode dir
      args.hunks [] initial with ⟨e | changes, after⟩
    · simp [hverified] at haccepted
    · simp only [hverified] at haccepted
      cases haccepted
      obtain ⟨hsome, hkeys, entries, hentries, hplan⟩ :=
        verifyHunks_memory ops textDiff hverified nodup_nil
      subst hentries
      rw [appliesAsVerified_iff_run hsome]
      apply and_congr_right
      intro _
      have hiff := predicted_iff_independent (accepted_of_isVerifiedAs hplan hkeys)
      simp only [predicts_iff_changesHold hplan] at hiff
      simp only [hdir, Except.ok.injEq, forall_eq']
      exact hiff

end Memory

def twoFiles : Text → Option Text := fun path =>
  if path = "a".toList then some "x\n".toList
  else if path = "c".toList then some "z\n".toList
  else none

/-- A move next to a deletion is applied as verified. -/
theorem appliesAsVerified_of_move_and_delete :
    AppliesAsVerified plainPaths
      ⟨[("a".toList, .update [] (some "b".toList) "y\n".toList),
        ("c".toList, .delete "z\n".toList)], .normalizeToLf, [], []⟩
      [.updateFile "a".toList (some "b".toList) [replaceXByY],
        .deleteFile "c".toList] true twoFiles := by
  have haccepted : tryVerifyApplyPatchArgs memoryFileSystem plainPaths (fun _ _ _ => [])
          ⟨[], [.updateFile "a".toList (some "b".toList) [replaceXByY],
            .deleteFile "c".toList], none, none⟩ [] .normalizeToLf twoFiles =
        (.ok ⟨[("a".toList, .update [] (some "b".toList) "y\n".toList),
          ("c".toList, .delete "z\n".toList)], .normalizeToLf, [], []⟩,
          twoFiles) := by
    rfl
  rw [appliesAsVerified_iff_movesIndependently plainPaths _ haccepted true]
  refine ⟨by simp, fun dir hdir => ?_⟩
  cases hdir
  apply independent_of_fresh_destinations
  have hplan : planOf plainPaths .normalizeToLf []
      [.updateFile "a".toList (some "b".toList) [replaceXByY],
        .deleteFile "c".toList] =
      [.move "a".toList "b".toList (deriveContent plainPaths .normalizeToLf
        "a".toList [replaceXByY]), .delete "c".toList] := rfl
  rw [hplan]
  intro key destination derive hmove
  obtain hmove | hmove := mem_pair.mp hmove
  · cases hmove
    refine ⟨by decide, fun op hop htouches => ?_⟩
    obtain rfl | rfl := mem_pair.mp hop
    · rfl
    · simp [StoreOp.Touches, target, removes] at htouches
  · cases hmove

/-- Verification promises the new contents of a file moved onto itself, but
application succeeds and removes the file. -/
theorem selfMove_is_not_applied_as_verified :
    ∃ (args : ApplyPatchArgs) (initial : Text → Option Text)
      (action : ApplyPatchAction Text),
      tryVerifyApplyPatchArgs memoryFileSystem plainPaths (fun _ _ _ => []) args
          [] .normalizeToLf initial = (.ok action, initial) ∧
        (filesOnSuccess (applyHunksToFiles memoryFileSystem plainPaths
          args.hunks {} action.cwd ⟨initial, {}⟩)).map (· "a".toList) = some none ∧
        ¬ AppliesAsVerified plainPaths action args.hunks true initial := by
  refine ⟨⟨[], [.updateFile "a".toList (some "a".toList) [replaceXByY]], none,
    none⟩, twoFiles,
    ⟨[("a".toList, .update [] (some "a".toList) "y\n".toList)], .normalizeToLf,
      [], []⟩, rfl, rfl, ?_⟩
  rintro ⟨affected, session, hrun, hholds⟩
  have hentry := (hholds.entries _ mem_cons_self).1
  have hsession := (Prod.ext_iff.mp hrun).2
  simp only at hsession
  have hgone : session.files "a".toList = none := by
    rw [← hsession]
    rfl
  rw [hgone] at hentry
  cases hentry

end Rexux.ApplyPatch
