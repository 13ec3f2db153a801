import Rexux.Foundation.Journal
import Rexux.ApplyPatch.Apply

/-!
# Exact deltas

A delta that claims to be exact should let the caller replay the patch on the
state before it, and undo it on the state after it, whatever failed on the way.

Nothing is assumed about the file system beyond `FileSystemLaws`: a failing
write may leave anything at its target, a failing removal may or may not have
removed, and any operation may fail at any time.  `Tracks` ties the recorded
changes to a journal of writes.  Each helper of the loop has one lemma that says
what it does to the files and to the flag, and every hunk keeps `Tracks` on all
of its exits.

Two things go wrong.  A link whose target is missing is reported as absent, so a
write through it is recorded as a new file.  And a move of a file onto itself
removes the file, while its change replays to the new contents.
-/

namespace Rexux.ApplyPatch

open Foundation Function AppliedPatchChange Session

/-- What can be found at a path.  Directories are no content and do not
count; a dangling link is one whose target is missing. -/
inductive FileNode where
  | text (content : Text)
  | binary
  | link
  | danglingLink
  deriving DecidableEq, Repr

/-- There is a link, whether or not its target exists. -/
def IsLink (node : Option FileNode) : Prop :=
  node = some .link ∨ node = some .danglingLink

instance (node : Option FileNode) : Decidable (IsLink node) :=
  inferInstanceAs (Decidable (_ ∨ _))

theorem not_isLink_text (content : Option Text) : ¬ IsLink (content.map .text) := by
  cases content <;> simp [IsLink]

variable {σ Path E : Type*}

/-- The recorded changes are as before, and if the delta is still exact it was
exact before and the files are as before. -/
structure Quiet (view : σ → Path → Option FileNode) (before after : Session σ Path) : Prop where
  changes_eq : after.delta.changes = before.delta.changes
  of_exact : after.delta.exact = true →
    before.delta.exact = true ∧ view after.files = view before.files

variable {view : σ → Path → Option FileNode}

theorem Quiet.trans {first second third : Session σ Path}
    (h : Quiet view first second) (h' : Quiet view second third) : Quiet view first third := by
  refine ⟨h'.changes_eq.trans h.changes_eq, ?_⟩
  intro hexact
  obtain ⟨hsecond, hview⟩ := h'.of_exact hexact
  obtain ⟨hfirst, hview'⟩ := h.of_exact hsecond
  exact ⟨hfirst, hview.trans hview'⟩

variable {session : Session σ Path} {files : σ}

theorem quiet_withFiles
    (hview : view files = view session.files) : Quiet view session (session.withFiles files) :=
  ⟨rfl, fun hexact => ⟨hexact, hview⟩⟩

theorem quiet_keepExact (session : Session σ Path)
    (keep : Bool) : Quiet view session (session.keepExact keep) :=
  ⟨rfl, fun hexact => ⟨(Bool.and_eq_true_iff.mp hexact).1, rfl⟩⟩

variable [DecidableEq Path]

/-- What the operations may do to the files.  Where there is a link, a write or
a removal through it is not constrained at all.  `NotFound` stands for an absent
file, but the metadata of a dangling link is not found either. -/
structure FileSystemLaws (fs : ExecutorFileSystem σ Path)
    (view : σ → Path → Option FileNode) : Prop where
  metadata_view : ∀ path follow files, view (fs.getMetadata path follow files).2 = view files
  metadata_regular : ∀ path follow files metadata,
    (fs.getMetadata path follow files).1 = .ok metadata →
      metadata.isFile = true → metadata.isSymlink = false → ¬ IsLink (view files path)
  metadata_notFound : ∀ path follow files e,
    (fs.getMetadata path follow files).1 = .error e → e.kind = .notFound →
      view files path = none ∨ view files path = some .danglingLink
  read_view : ∀ path follow files, view (fs.readFileText path follow files).2 = view files
  read_ok : ∀ path follow files content,
    (fs.readFileText path follow files).1 = .ok content →
      view files path = some (.text content) ∨ view files path = some .link
  read_notFound : ∀ path follow files e,
    (fs.readFileText path follow files).1 = .error e → e.kind = .notFound →
      view files path = none ∨ IsLink (view files path)
  write_ok : ∀ path content follow files,
    ¬ IsLink (view files path) →
      (fs.writeFile path content follow files).1 = .ok () →
        view (fs.writeFile path content follow files).2 =
          update (view files) path (some (.text content))
  write_error : ∀ path content follow files e,
    ¬ IsLink (view files path) →
      (fs.writeFile path content follow files).1 = .error e →
        ∃ node, ¬ IsLink node ∧
          view (fs.writeFile path content follow files).2 = update (view files) path node
  createDirectory_view : ∀ path follow files,
    view (fs.createDirectory path follow files).2 = view files
  remove_ok : ∀ path follow files,
    ¬ IsLink (view files path) →
      (fs.remove path follow files).1 = .ok () →
        view (fs.remove path follow files).2 = update (view files) path none
  remove_error : ∀ path follow files e,
    ¬ IsLink (view files path) →
      (fs.remove path follow files).1 = .error e →
        view (fs.remove path follow files).2 = view files ∨
          view (fs.remove path follow files).2 = update (view files) path none

/-! ## Replaying and undoing a delta -/

namespace AppliedPatchChange

variable (change : AppliedPatchChange Path)

/-- Write what the change wrote; a move whose destination differs from its
source removes the source. -/
def replay (files : Path → Option FileNode) : Path → Option FileNode :=
  match change.change with
  | .add content _ => update files change.path (some (.text content))
  | .delete _ => update files change.path none
  | .update none _ _ newContent => update files change.path (some (.text newContent))
  | .update (some destination) _ _ newContent =>
    let moved := update files destination (some (.text newContent))
    if destination = change.path then moved
    else update moved change.path none

/-- Put back what the change has recorded as replaced. -/
def undo (files : Path → Option FileNode) : Path → Option FileNode :=
  match change.change with
  | .add _ overwrittenContent => update files change.path (overwrittenContent.map .text)
  | .delete content => update files change.path (some (.text content))
  | .update none oldContent _ _ => update files change.path (some (.text oldContent))
  | .update (some destination) oldContent overwrittenMoveContent _ =>
    update
      (update files change.path (some (.text oldContent)))
      destination (overwrittenMoveContent.map .text)

/-- The change as writes of single paths, each with what was there before. -/
def writes : List (StoreWrite Path (Option FileNode)) :=
  match change.change with
  | .add content overwrittenContent =>
    [⟨change.path, overwrittenContent.map .text, some (.text content)⟩]
  | .delete content => [⟨change.path, some (.text content), none⟩]
  | .update none oldContent _ newContent =>
    [⟨change.path, some (.text oldContent), some (.text newContent)⟩]
  | .update (some destination) oldContent overwrittenMoveContent newContent =>
    if destination = change.path then [⟨change.path, overwrittenMoveContent.map .text, none⟩]
    else
      [⟨destination, overwrittenMoveContent.map .text, some (.text newContent)⟩,
        ⟨change.path, some (.text oldContent), none⟩]

/-- A move whose destination is its source. -/
def IsSelfMove : Prop :=
  ∃ oldContent overwritten newContent,
    change.change = .update (some change.path) oldContent overwritten newContent

/-- Where the change puts a file that it does not say to have been there. -/
def created : Option Path :=
  match change.change with
  | .add .. => some change.path
  | .delete _ => none
  | .update movePath .. => movePath

theorem replay_eq_replayWrites {change : AppliedPatchChange Path} (hmove : ¬ change.IsSelfMove)
    (files : Path → Option FileNode) : change.replay files = replayWrites change.writes files := by
  obtain ⟨path, change⟩ := change
  cases change with
  | add | delete => rfl
  | update movePath oldContent overwritten newContent =>
    cases movePath with
    | none => rfl
    | some destination =>
      have hne : destination ≠ path := by
        rintro rfl
        exact hmove ⟨_, _, _, rfl⟩
      simp only [replay, writes, if_neg hne]
      rfl

theorem undo_eq_undoWrites (files : Path → Option FileNode) :
    change.undo files = undoWrites change.writes files := by
  obtain ⟨path, change⟩ := change
  cases change with
  | add | delete => rfl
  | update movePath oldContent overwritten newContent =>
    cases movePath with
    | none => rfl
    | some destination =>
      by_cases heq : destination = path
      · simp [undo, writes, heq, undoWrites, StoreWrite.revert]
      · simp only [undo, writes, if_neg heq]
        rfl

theorem not_isLink_of_mem_writes {change : AppliedPatchChange Path}
    {write : StoreWrite Path (Option FileNode)} (h : write ∈ change.writes) :
    ¬ IsLink write.before ∧ ¬ IsLink write.after := by
  obtain ⟨path, change⟩ := change
  cases change with
  | add content overwritten =>
    obtain rfl := List.mem_singleton.mp h
    exact ⟨not_isLink_text overwritten, not_isLink_text (some content)⟩
  | delete content =>
    obtain rfl := List.mem_singleton.mp h
    exact ⟨not_isLink_text (some content), not_isLink_text none⟩
  | update movePath oldContent overwritten newContent =>
    cases movePath with
    | none =>
      obtain rfl := List.mem_singleton.mp h
      exact ⟨not_isLink_text (some oldContent), not_isLink_text (some newContent)⟩
    | some destination =>
      simp only [writes] at h
      split_ifs at h
      · obtain rfl := List.mem_singleton.mp h
        exact ⟨not_isLink_text overwritten, not_isLink_text none⟩
      · rcases List.mem_pair.mp h with rfl | rfl
        · exact ⟨not_isLink_text overwritten, not_isLink_text (some newContent)⟩
        · exact ⟨not_isLink_text (some oldContent), not_isLink_text none⟩

theorem exists_write_of_created {change : AppliedPatchChange Path} {path : Path}
    (h : change.created = some path) : ∃ write ∈ change.writes, write.key = path := by
  obtain ⟨source, change⟩ := change
  cases change with
  | add content overwritten =>
    cases h
    exact ⟨_, List.mem_singleton_self _, rfl⟩
  | delete content => cases h
  | update movePath oldContent overwritten newContent =>
    cases h
    by_cases heq : path = source
    · simp [writes, heq]
    · simp [writes, heq]

/-- A move writes its destination and then removes its source. -/
theorem recorded_move {files : Path → Option FileNode} {path destination : Path}
    {oldContent newContent : Text} {overwritten : Option Text}
    (hdestination : files destination = overwritten.map .text)
    (hsource : files path = some (.text oldContent)) :
    let writes := writes ⟨path, .update (some destination) oldContent overwritten newContent⟩
    Recorded files writes ∧
      update (update files destination (some (.text newContent))) path none =
        replayWrites writes files := by
  intro writes
  by_cases heq : destination = path
  · have hwrites : writes = [⟨path, overwritten.map .text, none⟩] := if_pos heq
    subst heq
    rw [hwrites]
    exact ⟨⟨hdestination, trivial⟩, update_idem ..⟩
  · have hwrites : writes = [⟨destination, overwritten.map .text, some (.text newContent)⟩,
        ⟨path, some (.text oldContent), none⟩] := if_neg heq
    rw [hwrites]
    refine ⟨⟨hdestination, ?_, trivial⟩, rfl⟩
    change update files destination _ path = _
    rw [update_of_ne (Ne.symm heq)]
    exact hsource

end AppliedPatchChange

variable (changes : List (AppliedPatchChange Path))

/-- Replay the changes in their order. -/
def replayChanges (files : Path → Option FileNode) : Path → Option FileNode :=
  changes.foldl (fun files change => change.replay files) files

/-- Undo the changes, the last one first. -/
def undoChanges (files : Path → Option FileNode) : Path → Option FileNode :=
  changes.foldr (fun change files => change.undo files) files

def changesWrites : List (StoreWrite Path (Option FileNode)) :=
  changes.flatMap writes

/-- The last change that writes at the path. -/
def lastChangeAt (path : Path) : Option (AppliedPatchChange Path) :=
  changes.reverse.find? fun change => change.writes.any (·.key = path)

/-- The replay goes wrong exactly where the last change is a move of the file
onto itself. -/
theorem replayChanges_apply_eq_iff (files : Path → Option FileNode) (path : Path) :
    replayChanges changes files path = replayWrites (changesWrites changes) files path ↔
      ∀ change, lastChangeAt changes path = some change → ¬ change.IsSelfMove := by
  induction changes using List.reverseRecOn with
  | nil => simp [replayChanges, changesWrites, lastChangeAt]
  | append_singleton changes change ih =>
    have hreplay : replayChanges (changes ++ [change]) files =
        change.replay (replayChanges changes files) := by
      simp [replayChanges]
    have hwrites :
        changesWrites (changes ++ [change]) = changesWrites changes ++ change.writes := by
      simp [changesWrites]
    rw [hreplay, hwrites, replayWrites_append]
    rcases replayWrites_apply change.writes path with
      ⟨write, hwrite, hkey, hafter⟩ | ⟨hkeys, hsame⟩
    · have hlast : lastChangeAt (changes ++ [change]) path = some change := by
        have htouched : change.writes.any (·.key = path) = true := by
          simpa using ⟨write, hwrite, hkey⟩
        simp [lastChangeAt, htouched]
      rw [hlast, hafter]
      simp only [Option.some.injEq, forall_eq']
      by_cases hself : change.IsSelfMove
      · obtain ⟨oldContent, overwritten, newContent, hchange⟩ := hself
        have hnone : write.after = none ∧ change.path = path := by
          simp only [writes, hchange, if_true, List.mem_singleton] at hwrite
          simp [← hkey, hwrite]
        simp [hnone, replay, hchange, IsSelfMove]
      · rw [replay_eq_replayWrites hself, hafter]
        simp [hself]
    · have hlast : lastChangeAt (changes ++ [change]) path = lastChangeAt changes path := by
        have huntouched : change.writes.any (·.key = path) = false := by
          simpa using hkeys
        simp [lastChangeAt, huntouched]
      have hkept : change.replay (replayChanges changes files) path =
          replayChanges changes files path := by
        by_cases hself : change.IsSelfMove
        · obtain ⟨oldContent, overwritten, newContent, hchange⟩ := hself
          have hne : path ≠ change.path := by
            simp only [writes, hchange, if_true, List.forall_mem_singleton] at hkeys
            exact hkeys.symm
          simp [replay, hchange, update_of_ne hne]
        · rw [replay_eq_replayWrites hself, hsame]
      rw [hkept, hsame, hlast, ih]

theorem undoChanges_eq_undoWrites (files : Path → Option FileNode) :
    undoChanges changes files = undoWrites (changesWrites changes) files := by
  induction changes with
  | nil => rfl
  | cons change changes ih =>
    rw [changesWrites, List.flatMap_cons, undoWrites, List.foldr_append]
    change change.undo (undoChanges changes files) = _
    rw [ih, undo_eq_undoWrites]
    rfl

/-! ## The helpers of the loop -/

variable {follow : Bool} {path : Path} {overwritten : Option Text} {contents : Text}
  {fs : ExecutorFileSystem σ Path} {ops : PathOps Path E}

section Laws

variable (laws : FileSystemLaws fs view)

include laws

/-- Looking at a path changes nothing; an exact delta means that it is no link. -/
theorem noteExistingPathDeltaSupport_spec (path : Path) (follow : Bool) (session : Session σ Path) :
    Quiet view session (noteExistingPathDeltaSupport fs path follow session) ∧
      ((noteExistingPathDeltaSupport fs path follow session).delta.exact = true →
        view session.files path ≠ some .link) := by
  have hview := laws.metadata_view path follow session.files
  have hregular := laws.metadata_regular path follow session.files
  have hnotFound := laws.metadata_notFound path follow session.files
  unfold noteExistingPathDeltaSupport
  rcases hmeta : fs.getMetadata path follow session.files with ⟨e | metadata, files⟩ <;>
  rw [hmeta] at hview hregular hnotFound
  · refine ⟨(quiet_withFiles hview).trans (quiet_keepExact _ _), ?_⟩
    intro hexact
    have hkind : e.kind = .notFound := by
      simpa using (Bool.and_eq_true_iff.mp hexact).2
    rcases hnotFound e rfl hkind with hnode | hnode <;> simp [hnode]
  · refine ⟨(quiet_withFiles hview).trans (quiet_keepExact _ _), ?_⟩
    intro hexact
    have hkind : metadata.isFile ∧ metadata.isSymlink = false := by
      simpa using (Bool.and_eq_true_iff.mp hexact).2
    exact fun hlink => hregular metadata rfl hkind.1 hkind.2 (.inl hlink)

/-- What is read before a write is what the path has, a dangling link apart. -/
theorem readOptionalFileTextForDelta_spec {after : Session σ Path}
    (h : readOptionalFileTextForDelta fs path follow session = (overwritten, after)) :
    Quiet view session after ∧
      (after.delta.exact → view session.files path ≠ some .danglingLink →
        view session.files path = overwritten.map .text) := by
  obtain ⟨hquiet, hlink⟩ := noteExistingPathDeltaSupport_spec laws path follow session
  unfold readOptionalFileTextForDelta at h
  generalize noteExistingPathDeltaSupport fs path follow session = noted at h hquiet hlink
  have hview := laws.read_view path follow noted.files
  have hok := laws.read_ok path follow noted.files
  have hnotFound := laws.read_notFound path follow noted.files
  simp only at h
  rcases hread : fs.readFileText path follow noted.files with ⟨e | content, files⟩ <;>
  rw [hread] at h hview hok hnotFound
  · cases h
    refine ⟨hquiet.trans ((quiet_withFiles hview).trans (quiet_keepExact _ _)), ?_⟩
    intro hexact hdangling
    obtain ⟨hnoted, hkind⟩ := Bool.and_eq_true_iff.mp hexact
    have habsent := hnotFound e rfl (by simpa using hkind)
    rw [(hquiet.of_exact hnoted).2] at habsent
    exact habsent.resolve_right (not_or.mpr ⟨hlink hnoted, hdangling⟩)
  · cases h
    refine ⟨hquiet.trans (quiet_withFiles hview), ?_⟩
    intro hexact _
    have hcontent := hok content rfl
    rw [(hquiet.of_exact hexact).2] at hcontent
    exact hcontent.resolve_right (hlink hexact)

theorem ensureNotDirectory_view (path : Path) (follow : Bool) (files : σ) :
    view (ensureNotDirectory fs path follow files).2 = view files := by
  have hview := laws.metadata_view path follow files
  unfold ensureNotDirectory
  rcases hmeta : fs.getMetadata path follow files with ⟨e | metadata, files'⟩ <;>
  rw [hmeta] at hview
  · exact hview
  · by_cases hdirectory : metadata.isDirectory
    · simpa [hdirectory] using hview
    · simpa [hdirectory] using hview

theorem createMissingParent_view (ops : PathOps Path E) (path : Path) (follow : Bool) (files : σ) :
    view (createMissingParent fs ops path follow files).2 = view files := by
  unfold createMissingParent
  cases ops.parent path with
  | none => rfl
  | some parent => exact laws.createDirectory_view parent follow files

variable {after : σ}

theorem writeFileWithMissingParentRetry_ok (hlink : ¬ IsLink (view files path))
    (h : writeFileWithMissingParentRetry fs ops path contents follow files = (.ok (), after)) :
    view after = update (view files) path (some (.text contents)) := by
  have hwrite := laws.write_ok path contents follow files hlink
  have hfail := laws.write_error path contents follow files
  unfold writeFileWithMissingParentRetry at h
  rcases hfirst : fs.writeFile path contents follow files with ⟨e | _, files'⟩
  · rw [hfirst] at h hfail
    obtain ⟨node, hnode, hview⟩ := hfail e hlink rfl
    simp only at h hview
    split_ifs at h with hkind
    · have hcreate := createMissingParent_view laws ops path follow files'
      rcases hparent : createMissingParent fs ops path follow files' with ⟨e' | _, created⟩ <;>
      rw [hparent] at h hcreate
      · cases h
      · simp only at h hcreate
        have hview' : view created = update (view files) path node := hcreate.trans hview
        have hlink' : ¬ IsLink (view created path) := by
          rw [hview', update_self]
          exact hnode
        have hagain := laws.write_ok path contents follow created hlink'
        rcases hsecond : fs.writeFile path contents follow created with ⟨e' | _, written⟩ <;>
        rw [hsecond] at h hagain
        · cases h
        · cases h
          rw [hagain rfl, hview', update_idem]
    · cases h
  · rw [hfirst] at h hwrite
    cases h
    exact hwrite rfl

variable {expected : Option Text}

theorem removeFailureWasSideEffectFree_spec {harmless : Bool}
    (h : removeFailureWasSideEffectFree fs path expected follow files =
      (harmless, after)) (hyes : harmless) : view after = view files ∧ view files path ≠ none := by
  have hview := laws.read_view path follow files
  have hok := laws.read_ok path follow files
  unfold removeFailureWasSideEffectFree at h
  cases expected with
  | none =>
    cases h
    cases hyes
  | some expected =>
    rcases hread : fs.readFileText path follow files with ⟨e | content, files'⟩ <;>
    rw [hread] at hview hok <;>
    simp only [hread] at h <;>
    cases h
    · cases hyes
    · refine ⟨hview, ?_⟩
      rcases hok content rfl with hnode | hnode <;> simp [hnode]

/-- What a removal leaves, by its result. -/
def viewAfterRemoval (files : Path → Option FileNode) (path : Path) :
    Except (ApplyHunksError E) Unit → Path → Option FileNode
  | .ok () => update files path none
  | .error _ => files

/-- While the delta is exact, a removal has done what its result says. -/
theorem removeForHunk_spec {context : Text}
    {after : Session σ Path} {result : Except (ApplyHunksError E) Unit}
    (h : removeForHunk fs path context expected follow session = (result, after)) :
    after.delta.changes = session.delta.changes ∧
      (after.delta.exact → session.delta.exact ∧
        (¬ IsLink (view session.files path) →
          view after.files = viewAfterRemoval (view session.files) path result)) := by
  have hensure := ensureNotDirectory_view laws path follow session.files
  unfold removeForHunk at h
  rcases hdirectory : ensureNotDirectory fs path follow session.files with ⟨e | _, files⟩ <;>
  rw [hdirectory] at h hensure
  · cases h
    exact ⟨rfl, fun hexact => ⟨hexact, fun _ => hensure⟩⟩
  simp only at h hensure
  rw [← hensure]
  have hremoved := laws.remove_ok path follow files
  have hkept := laws.remove_error path follow files
  rcases hremove : fs.remove path follow files with ⟨e | _, files'⟩ <;>
  rw [hremove] at h hremoved hkept
  · simp only at h
    rcases hharmless : removeFailureWasSideEffectFree fs path expected follow
      files' with ⟨harmless, checked⟩
    rw [hharmless] at h
    cases h
    refine ⟨rfl, ?_⟩
    intro hexact
    obtain ⟨hbefore, hyes⟩ := Bool.and_eq_true_iff.mp hexact
    obtain ⟨hview, hpresent⟩ := removeFailureWasSideEffectFree_spec laws hharmless hyes
    refine ⟨hbefore, ?_⟩
    intro hlink
    change view checked = view files
    rw [hview]
    rcases hkept e hlink rfl with hsame | hgone
    · exact hsame
    · rw [hgone, update_self] at hpresent
      exact absurd rfl hpresent
  · cases h
    refine ⟨rfl, ?_⟩
    intro hexact
    exact ⟨hexact, fun hlink => hremoved hlink rfl⟩

end Laws

/-- No file was created where there was a dangling link. -/
def AreClear (initial : Path → Option FileNode) (changes : List (AppliedPatchChange Path)) : Prop :=
  ∀ change ∈ changes, ∀ path, change.created = some path → initial path ≠ some .danglingLink

/-- No change says that it found a dangling link, so none is put back. -/
theorem areClear_of_undoChanges_eq {files initial : Path → Option FileNode}
    (h : undoChanges changes files = initial) : AreClear initial changes := by
  intro change hchange path hcreated hdangling
  obtain ⟨write, hwrite, rfl⟩ := exists_write_of_created hcreated
  have hmem : write ∈ changesWrites changes := List.mem_flatMap.mpr ⟨change, hchange, hwrite⟩
  obtain ⟨first, hfirst, hundone⟩ := exists_undoWrites_eq hmem files
  obtain ⟨other, _, hother⟩ := List.mem_flatMap.mp hfirst
  rw [← undoChanges_eq_undoWrites, h, hdangling] at hundone
  exact (not_isLink_of_mem_writes hother).1 (.inr hundone.symm)

/-- As long as the delta is exact and no file was created where a dangling link
had been, its changes are a journal that leads from the initial files to the
present ones.  `selfMoved` are the paths that the hunks move onto themselves. -/
def Tracks (view : σ → Path → Option FileNode) (initial : Path → Option FileNode)
    (selfMoved : Set Path) (session : Session σ Path) : Prop :=
  session.delta.exact = true → AreClear initial session.delta.changes →
    Recorded initial (changesWrites session.delta.changes) ∧
      replayWrites (changesWrites session.delta.changes) initial = view session.files ∧
      ∀ change ∈ session.delta.changes, change.IsSelfMove → change.path ∈ selfMoved

variable {initial : Path → Option FileNode} {selfMoved : Set Path}

theorem tracks_of_not_exact (h : session.delta.exact = false) :
    Tracks view initial selfMoved session := by
  intro hexact
  rw [h] at hexact
  cases hexact

variable {after before : Session σ Path}

/-- A step that records nothing keeps the record right if it writes nothing. -/
theorem Tracks.of_changes_eq (htracks : Tracks view initial selfMoved before)
    (hchanges : after.delta.changes = before.delta.changes)
    (hview : after.delta.exact = true → before.delta.exact = true ∧
      (AreClear initial before.delta.changes → view after.files = view before.files)) :
    Tracks view initial selfMoved after := by
  intro hexact hclear
  rw [hchanges] at hclear ⊢
  obtain ⟨hbefore, hsame⟩ := hview hexact
  rw [hsame hclear]
  exact htracks hbefore hclear

theorem Tracks.of_quiet (htracks : Tracks view initial selfMoved before)
    (hquiet : Quiet view before after) : Tracks view initial selfMoved after := by
  refine htracks.of_changes_eq hquiet.changes_eq ?_
  intro hexact
  obtain ⟨hbefore, hsame⟩ := hquiet.of_exact hexact
  exact ⟨hbefore, fun _ => hsame⟩

/-- No dangling link appears: a change leaves a text or nothing. -/
theorem Tracks.not_dangling (htracks : Tracks view initial selfMoved session)
    (hexact : session.delta.exact = true) (hclear : AreClear initial session.delta.changes)
    (hpath : initial path ≠ some .danglingLink) :
    view session.files path ≠ some .danglingLink := by
  obtain ⟨_, hreplay, _⟩ := htracks hexact hclear
  rw [← hreplay]
  rcases replayWrites_apply (changesWrites session.delta.changes) path with
    ⟨write, hwrite, _, hafter⟩ | ⟨_, hsame⟩
  · obtain ⟨change, _, hwrite⟩ := List.mem_flatMap.mp hwrite
    rw [hafter]
    exact fun hdangling => (not_isLink_of_mem_writes hwrite).2 (.inr hdangling)
  · rw [hsame]
    exact hpath

/-- A step that records one change keeps the record right if it makes that change. -/
theorem Tracks.push (htracks : Tracks view initial selfMoved before)
    (change : AppliedPatchChange Path)
    (hchanges : after.delta.changes = before.delta.changes ++ [change])
    (hexact : after.delta.exact → before.delta.exact)
    (hmove : change.IsSelfMove → change.path ∈ selfMoved)
    (hwritten : after.delta.exact →
      (∀ path, change.created = some path → view before.files path ≠ some .danglingLink) →
        Recorded (view before.files) change.writes ∧
          view after.files = replayWrites change.writes (view before.files)) :
    Tracks view initial selfMoved after := by
  intro hafter hclear
  rw [hchanges, AreClear, List.forall_mem_append, List.forall_mem_singleton] at hclear
  obtain ⟨hjournal, hreplay, hmoves⟩ := htracks (hexact hafter) hclear.1
  obtain ⟨hrecorded, hview⟩ := hwritten hafter fun path hpath =>
    htracks.not_dangling (hexact hafter) hclear.1 (hclear.2 path hpath)
  have hwrites : changesWrites after.delta.changes =
      changesWrites before.delta.changes ++ change.writes := by
    simp [hchanges, changesWrites]
  refine ⟨?_, ?_, ?_⟩
  · rw [hwrites, recorded_append, hreplay]
    exact ⟨hjournal, hrecorded⟩
  · rw [hwrites, replayWrites_append, hreplay, hview]
  · rw [hchanges]
    exact List.forall_mem_append.mpr ⟨hmoves, List.forall_mem_singleton.mpr hmove⟩

section Steps

variable (laws : FileSystemLaws fs view)

include laws

/-- A file is written over what was there before, and the change says both. -/
theorem writeOver_tracks {noted : Session σ Path}
    (hread : readOptionalFileTextForDelta fs path follow session = (overwritten, noted))
    (hwrite : writeFileWithMissingParentRetry (E := E) fs ops path contents follow noted.files =
      (.ok (), files)) (htracks : Tracks view initial selfMoved session) :
    (noted.delta.exact → view session.files path ≠ some .danglingLink →
      view files = update (view session.files) path (some (.text contents))) ∧
      Tracks view initial selfMoved
        ((noted.withFiles files).pushChange path (.add contents overwritten)) := by
  obtain ⟨hquiet, hoverwritten⟩ := readOptionalFileTextForDelta_spec laws hread
  have hwritten : noted.delta.exact → view session.files path ≠ some .danglingLink →
      view files = update (view session.files) path (some (.text contents)) := by
    intro hexact hdangling
    have hview := (hquiet.of_exact hexact).2
    have hlink : ¬ IsLink (view noted.files path) := by
      rw [hview, hoverwritten hexact hdangling]
      exact not_isLink_text overwritten
    rw [writeFileWithMissingParentRetry_ok laws hlink hwrite, hview]
  refine ⟨hwritten, ?_⟩
  apply htracks.push ⟨path, .add contents overwritten⟩
  · simp [pushChange, withFiles, hquiet.changes_eq]
  · exact fun hexact => (hquiet.of_exact hexact).1
  · rintro ⟨_, _, _, h⟩
    cases h
  · intro hexact hclear
    have hdangling := hclear path rfl
    exact ⟨⟨hoverwritten hexact hdangling, trivial⟩, hwritten hexact hdangling⟩

theorem applyAdd_tracks (path : Path) (contents : Text) (follow : Bool)
    (htracks : Tracks view initial selfMoved session) :
    Tracks view initial selfMoved (applyAdd fs ops path contents follow session).2 := by
  unfold applyAdd
  rcases hread : readOptionalFileTextForDelta fs path follow session with ⟨overwritten, noted⟩
  simp only
  rcases hwrite : writeFileWithMissingParentRetry fs ops path contents follow
    noted.files with ⟨e | _, files⟩
  · exact tracks_of_not_exact (Bool.and_false _)
  · exact (writeOver_tracks laws hread hwrite htracks).2

/-- What is read before a removal is what the path has, if the delta stays exact. -/
theorem readBeforeRemoval_spec {read : Except IoFailure Text}
    (hread : fs.readFileText path follow
      (noteExistingPathDeltaSupport fs path follow session).files = (read, files)) :
    let ready := ((noteExistingPathDeltaSupport fs path follow session).withFiles files).keepExact
      read.toOption.isSome
    Quiet view session ready ∧
      (ready.delta.exact →
        ∃ content, read = .ok content ∧ view session.files path = some (.text content)) := by
  obtain ⟨hquiet, hlink⟩ := noteExistingPathDeltaSupport_spec laws path follow session
  generalize noteExistingPathDeltaSupport fs path follow session = noted at hread hquiet hlink ⊢
  have hview := laws.read_view path follow noted.files
  have hok := laws.read_ok path follow noted.files
  rw [hread] at hview hok
  refine ⟨hquiet.trans ((quiet_withFiles hview).trans (quiet_keepExact _ _)), ?_⟩
  intro hkept
  obtain ⟨hexact, hsome⟩ := Bool.and_eq_true_iff.mp hkept
  cases read with
  | error e => cases hsome
  | ok content =>
    have hcontent := hok content rfl
    rw [(hquiet.of_exact hexact).2] at hcontent
    exact ⟨content, rfl, hcontent.resolve_right (hlink hexact)⟩

theorem applyDelete_tracks (path : Path) (follow : Bool)
    (htracks : Tracks view initial selfMoved session) :
    Tracks view initial selfMoved (applyDelete (E := E) fs ops path follow session).2 := by
  unfold applyDelete
  rcases hread : fs.readFileText path follow
    (noteExistingPathDeltaSupport fs path follow session).files with ⟨read, files⟩
  obtain ⟨hready, hcontent⟩ := readBeforeRemoval_spec laws hread
  simp only [hread]
  generalize ((noteExistingPathDeltaSupport fs path follow session).withFiles files).keepExact
    read.toOption.isSome = ready at hready hcontent ⊢
  rcases hremove : removeForHunk (E := E) fs path
    ("Failed to delete file ".toList ++ ops.inferredNativePathString path)
    read.toOption follow ready with ⟨result, after⟩
  obtain ⟨hchanges, hafter⟩ := removeForHunk_spec laws hremove
  have hremoved : after.delta.exact → ready.delta.exact ∧
      view after.files = viewAfterRemoval (view session.files) path result := by
    intro hexact
    obtain ⟨hexact, hremoved⟩ := hafter hexact
    rw [(hready.of_exact hexact).2] at hremoved
    obtain ⟨content, _, hnode⟩ := hcontent hexact
    exact ⟨hexact, hremoved (hnode ▸ not_isLink_text (some content))⟩
  rcases result with e | _
  · refine htracks.of_quiet ⟨hchanges.trans hready.changes_eq, ?_⟩
    intro hexact
    obtain ⟨hexact, hremoved⟩ := hremoved hexact
    exact ⟨(hready.of_exact hexact).1, hremoved⟩
  · cases read with
    | error e =>
      apply tracks_of_not_exact
      change after.delta.exact = false
      by_contra hexact
      obtain ⟨_, hread, _⟩ := hcontent (hremoved (by simpa using hexact)).1
      cases hread
    | ok content =>
      apply htracks.push ⟨path, .delete content⟩
      · change after.delta.changes ++ _ = _
        rw [hchanges, hready.changes_eq]
      · exact fun hexact => (hready.of_exact (hafter hexact).1).1
      · rintro ⟨_, _, _, h⟩
        cases h
      · intro hexact _
        obtain ⟨hexact, hremoved⟩ := hremoved hexact
        obtain ⟨_, hread, hnode⟩ := hcontent hexact
        cases hread
        exact ⟨⟨hnode, trivial⟩, hremoved⟩

theorem deriveNewContentsFromChunks_spec {chunks : List UpdateFileChunk}
    {mode : ApplyPatchFileUpdateMode} {after : σ} {result : Except (ApplyPatchError E) AppliedPatch}
    (h : deriveNewContentsFromChunks fs ops path chunks mode follow files = (result, after)) :
    view after = view files ∧
      ∀ applied, result = .ok applied →
        view files path = some (.text applied.originalContents) ∨ view files path = some .link := by
  have hview := laws.read_view path follow files
  have hok := laws.read_ok path follow files
  unfold deriveNewContentsFromChunks at h
  rcases hread : fs.readFileText path follow files with ⟨e | content, files'⟩ <;>
  simp only [hread] at h hview hok
  · cases h
    exact ⟨hview, fun _ h => by cases h⟩
  · cases hnew : newContentsFromChunks (ops.inferredNativePathString path) chunks mode content with
    | error message =>
      rw [hnew] at h
      cases h
      exact ⟨hview, fun _ h => by cases h⟩
    | ok newContents =>
      rw [hnew] at h
      cases h
      refine ⟨hview, ?_⟩
      intro applied happlied
      cases happlied
      exact hok content rfl

variable {applied : AppliedPatch}

theorem writeUpdate_tracks (follow : Bool) (htracks : Tracks view initial selfMoved session)
    (hold : session.delta.exact → view session.files path = some (.text applied.originalContents)) :
    Tracks view initial selfMoved (writeUpdate fs ops path applied follow session).2 := by
  have hwrite := laws.write_ok path applied.newContents follow session.files
  unfold writeUpdate
  rcases hresult : fs.writeFile path applied.newContents follow session.files with ⟨e | _, files⟩
  · exact tracks_of_not_exact (Bool.and_false _)
  · rw [hresult] at hwrite
    apply htracks.push ⟨path, .update none applied.originalContents none applied.newContents⟩
    · rfl
    · exact id
    · rintro ⟨_, _, _, h⟩
      cases h
    · intro hexact _
      refine ⟨⟨hold hexact, trivial⟩, hwrite ?_ rfl⟩
      rw [hold hexact]
      exact not_isLink_text (some applied.originalContents)

/-- A move records its two writes, unless it moves a file to itself. -/
theorem moveUpdate_tracks {destUri : Path} (hself : destUri = path → path ∈ selfMoved)
    (follow : Bool) (htracks : Tracks view initial selfMoved session)
    (hold : session.delta.exact → view session.files path = some (.text applied.originalContents)) :
    Tracks view initial selfMoved (moveUpdate fs ops path destUri applied follow session).2 := by
  unfold moveUpdate
  rcases hread : readOptionalFileTextForDelta fs destUri follow session with ⟨overwritten, noted⟩
  obtain ⟨hquiet, hoverwritten⟩ := readOptionalFileTextForDelta_spec laws hread
  simp only
  rcases hwrite : writeFileWithMissingParentRetry fs ops destUri
    applied.newContents follow noted.files with ⟨e | _, files⟩
  · exact tracks_of_not_exact (Bool.and_false _)
  simp only
  obtain ⟨hwritten, hmiddle⟩ := writeOver_tracks laws hread hwrite htracks
  -- the source is a text after the write, its own or the one just written onto it
  have hsource : noted.delta.exact → view session.files destUri ≠ some .danglingLink →
      ¬ IsLink (view files path) := by
    intro hexact hdangling
    rw [hwritten hexact hdangling, update_apply, hold (hquiet.of_exact hexact).1]
    split_ifs
    · exact not_isLink_text (some applied.newContents)
    · exact not_isLink_text (some applied.originalContents)
  rcases hremove : removeForHunk (E := E) fs path
    ("Failed to remove original ".toList ++ ops.inferredNativePathString path)
    (some applied.originalContents) follow
    ((noted.withFiles files).pushChange destUri
      (.add applied.newContents overwritten)) with ⟨e | _, after⟩ <;>
  obtain ⟨hchanges, hafter⟩ := removeForHunk_spec laws hremove
  · refine hmiddle.of_changes_eq hchanges ?_
    intro hexact
    obtain ⟨hexact, hkept⟩ := hafter hexact
    refine ⟨hexact, ?_⟩
    intro hclear
    simp only [pushChange, withFiles, hquiet.changes_eq, AreClear, List.forall_mem_append,
      List.forall_mem_singleton] at hclear
    have hdangling :=
      htracks.not_dangling (hquiet.of_exact hexact).1 hclear.1 (hclear.2 destUri rfl)
    exact hkept (hsource hexact hdangling)
  · apply htracks.push ⟨path, .update (some destUri)
      applied.originalContents overwritten applied.newContents⟩
    · change after.delta.changes.dropLast ++ _ = _
      rw [hchanges]
      simp [pushChange, withFiles, hquiet.changes_eq]
    · exact fun hexact => (hquiet.of_exact (hafter hexact).1).1
    · rintro ⟨_, _, _, h⟩
      simp only [AppliedPatchFileChange.update.injEq, Option.some.injEq] at h
      exact hself h.1
    · intro hexact hclear
      obtain ⟨hnoted, hremoved⟩ := hafter hexact
      have hdangling := hclear destUri rfl
      have hview : view after.files = update (view files) path none :=
        hremoved (hsource hnoted hdangling)
      rw [hwritten hnoted hdangling] at hview
      change _ ∧ view after.files = _
      rw [hview]
      exact recorded_move (hoverwritten hnoted hdangling) (hold (hquiet.of_exact hnoted).1)

theorem applyUpdate_tracks (options : ApplyPatchOptions) (cwd path : Path) {movePath : Option Text}
    (chunks : List UpdateFileChunk)
    (hself : ∀ destination, movePath = some destination → ops.join cwd destination = .ok path →
      path ∈ selfMoved) (htracks : Tracks view initial selfMoved session) :
    Tracks view initial selfMoved
      (applyUpdate fs ops options cwd path movePath chunks session).2 := by
  obtain ⟨hquiet, hlink⟩ := noteExistingPathDeltaSupport_spec laws path
    options.followSymlinks session
  unfold applyUpdate
  simp only
  generalize noteExistingPathDeltaSupport fs path options.followSymlinks
    session = noted at hquiet hlink ⊢
  rcases hderive : deriveNewContentsFromChunks fs ops path chunks
    options.updateFileMode options.followSymlinks noted.files with
    ⟨e | applied, files⟩ <;>
  obtain ⟨hview, horiginal⟩ := deriveNewContentsFromChunks_spec laws hderive <;>
  have hready : Tracks view initial selfMoved (noted.withFiles files) :=
    htracks.of_quiet (hquiet.trans (quiet_withFiles hview))
  · exact hready
  have hold : (noted.withFiles files).delta.exact →
      view (noted.withFiles files).files path = some (.text applied.originalContents) := by
    intro hexact
    change view files path = _
    have hcontent := horiginal applied rfl
    rw [(hquiet.of_exact hexact).2] at hcontent
    rw [hview, (hquiet.of_exact hexact).2]
    exact hcontent.resolve_right (hlink hexact)
  cases movePath with
  | none => exact writeUpdate_tracks laws options.followSymlinks hready hold
  | some destination =>
    simp only
    cases hjoin : ops.join cwd destination with
    | error e => exact hready
    | ok destUri =>
      refine moveUpdate_tracks laws ?_ options.followSymlinks hready hold
      rintro rfl
      exact hself destination rfl hjoin

end Steps

/-- The move path of the hunk joins to the hunk's own path. -/
def Hunk.IsSelfMove (ops : PathOps Path E) (cwd : Path) (hunk : Hunk) (path : Path) : Prop :=
  ∃ source destination chunks,
    hunk = .updateFile source (some destination) chunks ∧
      ops.join cwd source = .ok path ∧ ops.join cwd destination = .ok path

section Runs

variable (laws : FileSystemLaws fs view)

include laws

/-- Every kind of hunk keeps the record of the changes right. -/
theorem applyHunk_tracks (options : ApplyPatchOptions) (cwd : Path) {hunk : Hunk}
    (hself : ∀ path, hunk.IsSelfMove ops cwd path → path ∈ selfMoved)
    (htracks : Tracks view initial selfMoved session) :
    Tracks view initial selfMoved (applyHunk fs ops options cwd hunk session).2 := by
  unfold applyHunk
  cases hpath : hunk.resolvePath ops cwd with
  | error e => exact htracks
  | ok path =>
    cases hunk with
    | addFile source contents =>
      exact applyAdd_tracks laws path contents options.followSymlinks htracks
    | deleteFile source => exact applyDelete_tracks laws path options.followSymlinks htracks
    | updateFile source movePath chunks =>
      apply applyUpdate_tracks laws options cwd path chunks _ htracks
      rintro destination rfl hjoin
      exact hself path ⟨source, destination, chunks, rfl, hpath, hjoin⟩

/-- The record is right after all hunks, failed ones included. -/
theorem applyHunkList_tracks (options : ApplyPatchOptions) (cwd : Path) {hunks : List Hunk}
    (hself : ∀ hunk ∈ hunks, ∀ path, hunk.IsSelfMove ops cwd path → path ∈ selfMoved)
    (affected : AffectedPaths) (htracks : Tracks view initial selfMoved session) :
    Tracks view initial selfMoved (applyHunkList fs ops options cwd hunks affected session).2 := by
  induction hunks generalizing affected session with
  | nil => exact htracks
  | cons hunk hunks ih =>
    have hstep := applyHunk_tracks laws options cwd (hself hunk (by simp)) htracks
    unfold applyHunkList
    rcases hresult : applyHunk fs ops options cwd hunk session with ⟨e | _, next⟩ <;>
    rw [hresult] at hstep
    · exact hstep
    · exact ih (fun h hh => hself h (by simp [hh])) _ hstep

end Runs

/-- How one operation fails: with which kind, what a write leaves at its
target, and whether a removal removed. -/
structure Fault where
  kind : IoErrorKind
  leaves : Option FileNode
  removed : Bool

/-- Files with a schedule of faults, one place for every operation. -/
structure FaultyFiles (Path : Type*) where
  nodes : Path → Option FileNode
  faults : List (Option Fault)

namespace FaultyFiles

variable {Path : Type*} [DecidableEq Path]

/-- What happens to the next operation. -/
def fault (files : FaultyFiles Path) : Option Fault := files.faults.head?.join

def next (files : FaultyFiles Path) : FaultyFiles Path :=
  { files with faults := files.faults.tail }

def put (files : FaultyFiles Path) (path : Path) (node : Option FileNode) : FaultyFiles Path :=
  { files with nodes := update files.nodes path node }

def failure (kind : IoErrorKind) : IoFailure := ⟨kind, []⟩

def readFailure (fault : Fault) : IoFailure :=
  failure (if fault.kind = .notFound then .other else fault.kind)

def readFileText (path : Path) (_ : Bool) (files : FaultyFiles Path) :
    Except IoFailure Text × FaultyFiles Path :=
  match files.fault, files.nodes path with
  | some fault, _ => (.error (readFailure fault), files.next)
  | none, some (.text content) => (.ok content, files.next)
  | none, none | none, some .danglingLink => (.error (failure .notFound), files.next)
  | none, some _ => (.error (failure .invalidData), files.next)

def getMetadata (path : Path) (_ : Bool) (files : FaultyFiles Path) :
    Except IoFailure FileMetadata × FaultyFiles Path :=
  match files.fault, files.nodes path with
  | some fault, _ => (.error (readFailure fault), files.next)
  | none, none | none, some .danglingLink => (.error (failure .notFound), files.next)
  | none, some node => (.ok ⟨false, true, node = .link⟩, files.next)

/-- A write through a link makes the file that the link leads to, which lies
elsewhere; the link stays. -/
def writeFile (path : Path) (content : Text) (_ : Bool)
    (files : FaultyFiles Path) : Except IoFailure Unit × FaultyFiles Path :=
  match files.fault with
  | none =>
    (.ok (), files.next.put path
      (if IsLink (files.nodes path) then some .link else some (.text content)))
  | some fault =>
    (.error (failure fault.kind), files.next.put path
      (if IsLink fault.leaves then none else fault.leaves))

def createDirectory (_ : Path) (_ : Bool) (files : FaultyFiles Path) :
    Except IoFailure Unit × FaultyFiles Path :=
  match files.fault with
  | none => (.ok (), files.next)
  | some fault => (.error (failure fault.kind), files.next)

def remove (path : Path) (_ : Bool) (files : FaultyFiles Path) :
    Except IoFailure Unit × FaultyFiles Path :=
  match files.fault, files.nodes path with
  | some fault, _ =>
    (.error (failure fault.kind),
      if fault.removed then files.next.put path none else files.next)
  | none, some _ => (.ok (), files.next.put path none)
  | none, none => (.error (failure .notFound), files.next)

/-- The operations on such files. -/
def fileSystem : ExecutorFileSystem (FaultyFiles Path) Path where
  readFileText := readFileText
  writeFile := writeFile
  createDirectory := createDirectory
  getMetadata := getMetadata
  remove := remove

theorem readFailure_kind (fault : Fault) : (readFailure fault).kind ≠ .notFound := by
  unfold readFailure failure
  split_ifs with hkind
  · simp
  · exact hkind

theorem fileSystem_laws :
    FileSystemLaws fileSystem
      (FaultyFiles.nodes : FaultyFiles Path → Path → Option FileNode) where
  metadata_view := by
    intro path follow files
    simp only [fileSystem, getMetadata]
    split <;> rfl
  metadata_regular := by
    intro path follow files metadata h hfile hsymlink
    simp only [fileSystem, getMetadata] at h
    split at h <;> cases h
    next node hdangling _ hnode =>
      rintro (hlink | hlink) <;> rw [hlink] at hnode <;> cases hnode
      · cases hsymlink
      · exact hdangling rfl
  metadata_notFound := by
    intro path follow files e h hkind
    simp only [fileSystem, getMetadata] at h
    split at h <;> cases h
    · exact absurd hkind (readFailure_kind _)
    · exact .inl ‹_›
    · exact .inr ‹_›
  read_view := by
    intro path follow files
    simp only [fileSystem, readFileText]
    split <;> rfl
  read_ok := by
    intro path follow files content h
    simp only [fileSystem, readFileText] at h
    split at h <;> cases h
    exact .inl ‹_›
  read_notFound := by
    intro path follow files e h hkind
    simp only [fileSystem, readFileText] at h
    split at h <;> cases h
    · exact absurd hkind (readFailure_kind _)
    · exact .inl ‹_›
    · exact .inr (.inr ‹_›)
    · cases hkind
  write_ok := by
    intro path content follow files hlink h
    simp only [fileSystem, writeFile, if_neg hlink] at h ⊢
    split at h <;> cases h
    rfl
  write_error := by
    intro path content follow files e _ h
    simp only [fileSystem, writeFile] at h ⊢
    split at h <;> cases h
    next fault hfault =>
      refine ⟨if IsLink fault.leaves then none else fault.leaves, ?_, rfl⟩
      split_ifs with hleaves
      · exact not_isLink_text none
      · exact hleaves
  createDirectory_view := by
    intro path follow files
    simp only [fileSystem, createDirectory]
    split <;> rfl
  remove_ok := by
    intro path follow files _ h
    simp only [fileSystem, remove] at h ⊢
    split at h <;> cases h
    rfl
  remove_error := by
    intro path follow files e _ h
    simp only [fileSystem, remove] at h ⊢
    split at h <;> cases h
    · split_ifs
      · exact .inr rfl
      · exact .inl rfl
    · exact .inl rfl

end FaultyFiles

def onlyNode (path : Text) (node : FileNode) : Text → Option FileNode :=
  fun other => if other = path then some node else none

/-- A file whose removal fails. -/
def stuckFile : FaultyFiles Text :=
  ⟨onlyNode "a".toList (.text "x\n".toList),
    [none, none, none, none, none, none, some ⟨.other, none, false⟩]⟩

/-- The second hunk moves a file onto itself. -/
def moveTwice : List Hunk :=
  [.updateFile "a".toList (some "b".toList) [replaceXByY],
    .updateFile "a".toList (some "a".toList) [replaceXByY]]

end Rexux.ApplyPatch
