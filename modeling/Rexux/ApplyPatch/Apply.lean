import Rexux.ApplyPatch.FileUpdate
import Rexux.ApplyPatch.Parser

/-!
# Applying hunks to files

`applyHunksToFiles` runs through the hunks in order and talks to the file
system through an interface of five operations.  Every operation may fail, and
every step threads the state of the file system together with the delta that
records what has been committed so far, also when the step ends in an error.

Paths are abstract: what the code uses of them is joining, the parent and the
spelling shown to the user.
-/

namespace Rexux.ApplyPatch

open Foundation

/-! ## The file system interface -/

/-- The kinds of failure that the code tells apart. -/
inductive IoErrorKind where
  | notFound
  | invalidData
  | invalidInput
  | other
  deriving DecidableEq, Repr

structure IoFailure where
  kind : IoErrorKind
  message : Text
  deriving DecidableEq, Repr

/-- The part of the metadata that is looked at. -/
structure FileMetadata where
  isDirectory : Bool
  isFile : Bool
  isSymlink : Bool
  deriving DecidableEq, Repr

/-- The operations that applying a patch uses, over states `σ`.  The flag is
`follow_symlinks`; removal is neither recursive nor forced, and directories are
created with their parents. -/
structure ExecutorFileSystem (σ Path : Type*) where
  readFileText : Path → Bool → σ → Except IoFailure Text × σ
  writeFile : Path → Text → Bool → σ → Except IoFailure Unit × σ
  createDirectory : Path → Bool → σ → Except IoFailure Unit × σ
  getMetadata : Path → Bool → σ → Except IoFailure FileMetadata × σ
  remove : Path → Bool → σ → Except IoFailure Unit × σ

/-- What the code uses of a path; `E` is the error of a failed join. -/
structure PathOps (Path E : Type*) where
  join : Path → Text → Except E Path
  parent : Path → Option Path
  inferredNativePathString : Path → Text

/-- What can go wrong while a patch is parsed, verified or applied. -/
inductive ApplyPatchError (E : Type*) where
  | parseError (error : ParseError)
  | ioError (context : Text) (source : IoFailure)
  | computeReplacements (message : Text)
  | pathUri (error : E)
  deriving DecidableEq, Repr

/-- The error of `applyHunksToFiles`: a message of its own, an error of the
patch, or an I/O failure with the context it was met in. -/
inductive ApplyHunksError (E : Type*) where
  | message (text : Text)
  | patch (error : ApplyPatchError E)
  | io (context : Option Text) (source : IoFailure)
  deriving DecidableEq, Repr

/-- A change that was made to a file, with the contents that it replaced. -/
inductive AppliedPatchFileChange (Path : Type*) where
  | add (content : Text) (overwrittenContent : Option Text)
  | delete (content : Text)
  | update (movePath : Option Path) (oldContent : Text)
      (overwrittenMoveContent : Option Text) (newContent : Text)
  deriving DecidableEq, Repr

structure AppliedPatchChange (Path : Type*) where
  path : Path
  change : AppliedPatchFileChange Path
  deriving DecidableEq, Repr

/-- The changes that were made, and whether they are all of them. -/
structure AppliedPatchDelta (Path : Type*) where
  changes : List (AppliedPatchChange Path) := []
  exact : Bool := true
  deriving DecidableEq, Repr

/-- The summary that is printed after a patch. -/
structure AffectedPaths where
  added : List Text := []
  modified : List Text := []
  deleted : List Text := []
  deriving DecidableEq, Repr

structure ApplyPatchOptions where
  updateFileMode : ApplyPatchFileUpdateMode := .normalizeToLf
  followSymlinks : Bool := true
  deriving DecidableEq, Repr

/-- The path a hunk names first: the source of an update. -/
def Hunk.sourcePath : Hunk → Text
  | .addFile path _ => path
  | .deleteFile path => path
  | .updateFile path _ _ => path

/-- The path a hunk affects: the destination of a move. -/
def Hunk.path : Hunk → Text
  | .addFile path _ => path
  | .deleteFile path => path
  | .updateFile _ (some destination) _ => destination
  | .updateFile path none _ => path

variable {σ Path E : Type*}

def Hunk.resolvePath (ops : PathOps Path E) (cwd : Path) (hunk : Hunk) : Except E Path :=
  ops.join cwd hunk.sourcePath

/-- The files and the delta so far. -/
structure Session (σ Path : Type*) where
  files : σ
  delta : AppliedPatchDelta Path := {}

namespace Session

variable (session : Session σ Path)

def withFiles (files : σ) : Session σ Path :=
  { session with files := files }

/-- The delta stays exact only if `keep` holds. -/
def keepExact (keep : Bool) : Session σ Path :=
  { session with delta :=
    { session.delta with exact := session.delta.exact && keep } }

def pushChange (path : Path) (change : AppliedPatchFileChange Path) : Session σ Path :=
  { session with delta :=
    { session.delta with
      changes := session.delta.changes ++ [⟨path, change⟩] } }

/-- The change recorded for a new file becomes the update of a move. -/
def replaceLastChange (path : Path) (change : AppliedPatchFileChange Path) : Session σ Path :=
  { session with delta :=
    { session.delta with
      changes := session.delta.changes.dropLast ++ [⟨path, change⟩] } }

end Session

variable (fs : ExecutorFileSystem σ Path) (ops : PathOps Path E)

/-! ## Helpers of the loop -/

variable (path : Path) (followSymlinks : Bool)

/-- Refuse a path that is a directory. -/
def ensureNotDirectory (files : σ) : Except IoFailure Unit × σ :=
  match fs.getMetadata path followSymlinks files with
  | (.error e, files) => (.error e, files)
  | (.ok metadata, files) =>
    if metadata.isDirectory then
      (.error ⟨.invalidInput, "path is a directory".toList⟩, files)
    else (.ok (), files)

/-- A failed removal had no effect if the file can still be read and is as it
was. -/
def removeFailureWasSideEffectFree (expectedContent : Option Text) (followSymlinks : Bool)
    (files : σ) : Bool × σ :=
  match expectedContent with
  | none => (false, files)
  | some expected =>
    match fs.readFileText path followSymlinks files with
    | (.ok content, files) => (content = expected, files)
    | (.error _, files) => (false, files)

/-- The delta stays exact if the path is a regular file or is not there. -/
def noteExistingPathDeltaSupport (session : Session σ Path) : Session σ Path :=
  match fs.getMetadata path followSymlinks session.files with
  | (.ok metadata, files) =>
    (session.withFiles files).keepExact (metadata.isFile && !metadata.isSymlink)
  | (.error e, files) => (session.withFiles files).keepExact (e.kind = .notFound)

/-- The contents that a write is about to replace, if they can be recorded. -/
def readOptionalFileTextForDelta (session : Session σ Path) : Option Text × Session σ Path :=
  let session := noteExistingPathDeltaSupport fs path followSymlinks session
  match fs.readFileText path followSymlinks session.files with
  | (.ok content, files) => (some content, session.withFiles files)
  | (.error e, files) => (none, (session.withFiles files).keepExact (e.kind = .notFound))

def writeFailureContext : Text :=
  "Failed to write file ".toList ++ ops.inferredNativePathString path

/-- Create the directory that a file is to be written to. -/
def createMissingParent (files : σ) : Except IoFailure Unit × σ :=
  match ops.parent path with
  | none => (.ok (), files)
  | some parent => fs.createDirectory parent followSymlinks files

/-- Write a file; if its directory is missing, create it and write again. -/
def writeFileWithMissingParentRetry (contents : Text) (followSymlinks : Bool) (files : σ) :
    Except (ApplyHunksError E) Unit × σ :=
  match fs.writeFile path contents followSymlinks files with
  | (.ok (), files) => (.ok (), files)
  | (.error e, files) =>
    if e.kind = .notFound then
      match createMissingParent fs ops path followSymlinks files with
      | (.error e, files) =>
        (.error (.io (some
          ("Failed to create parent directories for ".toList ++
            ops.inferredNativePathString path)) e), files)
      | (.ok (), files) =>
        match fs.writeFile path contents followSymlinks files with
        | (.ok (), files) => (.ok (), files)
        | (.error e, files) => (.error (.io (some (writeFailureContext ops path)) e), files)
    else (.error (.io (some (writeFailureContext ops path)) e), files)

/-- The contents of a file before and after its chunks. -/
structure AppliedPatch where
  originalContents : Text
  newContents : Text
  deriving DecidableEq, Repr

/-- Read a file and compute what the chunks make of it. -/
def deriveNewContentsFromChunks (chunks : List UpdateFileChunk) (mode : ApplyPatchFileUpdateMode)
    (followSymlinks : Bool) (files : σ) : Except (ApplyPatchError E) AppliedPatch × σ :=
  let pathText := ops.inferredNativePathString path
  match fs.readFileText path followSymlinks files with
  | (.error e, files) =>
    (.error (.ioError ("Failed to read file to update ".toList ++ pathText) e), files)
  | (.ok originalContents, files) =>
    match newContentsFromChunks pathText chunks mode originalContents with
    | .error message => (.error (.computeReplacements message), files)
    | .ok newContents => (.ok ⟨originalContents, newContents⟩, files)

/-- Remove `path` unless it is a directory.  A failed removal costs the delta
its exactness unless the file is still as `expectedContent` says. -/
def removeForHunk (context : Text) (expectedContent : Option Text) (followSymlinks : Bool)
    (session : Session σ Path) : Except (ApplyHunksError E) Unit × Session σ Path :=
  match ensureNotDirectory fs path followSymlinks session.files with
  | (.error e, files) => (.error (.io (some context) e), session.withFiles files)
  | (.ok (), files) =>
    match fs.remove path followSymlinks files with
    | (.ok (), files) => (.ok (), session.withFiles files)
    | (.error e, files) =>
      let (harmless, files) := removeFailureWasSideEffectFree fs path
        expectedContent followSymlinks files
      (.error (.io (some context) e), (session.withFiles files).keepExact harmless)

/-! ## The loop -/

/-- An added file replaces whatever was there. -/
def applyAdd (contents : Text) (followSymlinks : Bool) (session : Session σ Path) :
    Except (ApplyHunksError E) Unit × Session σ Path :=
  let (overwrittenContent, session) := readOptionalFileTextForDelta fs path followSymlinks session
  match writeFileWithMissingParentRetry fs ops path contents followSymlinks
      session.files with
  | (.error e, files) => (.error e, (session.withFiles files).keepExact false)
  | (.ok (), files) =>
    (.ok (), (session.withFiles files).pushChange path (.add contents overwrittenContent))

/-- A file is removed after its contents were recorded. -/
def applyDelete (session : Session σ Path) : Except (ApplyHunksError E) Unit × Session σ Path :=
  let context := "Failed to delete file ".toList ++ ops.inferredNativePathString path
  let session := noteExistingPathDeltaSupport fs path followSymlinks session
  let (read, files) := fs.readFileText path followSymlinks session.files
  let deletedContent := read.toOption
  let session := (session.withFiles files).keepExact deletedContent.isSome
  match removeForHunk fs path context deletedContent followSymlinks session with
  | (.error e, session) => (.error e, session)
  | (.ok (), session) =>
    match deletedContent with
    | some content => (.ok (), session.pushChange path (.delete content))
    | none => (.ok (), session)

/-- An update in place. -/
def writeUpdate (applied : AppliedPatch) (followSymlinks : Bool) (session : Session σ Path) :
    Except (ApplyHunksError E) Unit × Session σ Path :=
  match fs.writeFile path applied.newContents followSymlinks session.files with
  | (.error e, files) =>
    (.error (.io (some (writeFailureContext ops path)) e),
      (session.withFiles files).keepExact false)
  | (.ok (), files) =>
    (.ok (), (session.withFiles files).pushChange path
      (.update none applied.originalContents none applied.newContents))

/-- Write the new contents to the destination and remove the source.  The
destination is first recorded as an added file. -/
def moveUpdate (destUri : Path) (applied : AppliedPatch) (followSymlinks : Bool)
    (session : Session σ Path) : Except (ApplyHunksError E) Unit × Session σ Path :=
  let (overwrittenMoveContent, session) :=
    readOptionalFileTextForDelta fs destUri followSymlinks session
  match writeFileWithMissingParentRetry fs ops destUri applied.newContents
      followSymlinks session.files with
  | (.error e, files) => (.error e, (session.withFiles files).keepExact false)
  | (.ok (), files) =>
    let session := (session.withFiles files).pushChange destUri
      (.add applied.newContents overwrittenMoveContent)
    let context := "Failed to remove original ".toList ++ ops.inferredNativePathString path
    match removeForHunk fs path context (some applied.originalContents)
        followSymlinks session with
    | (.error e, session) => (.error e, session)
    | (.ok (), session) =>
      (.ok (), session.replaceLastChange path
        (.update (some destUri) applied.originalContents
          overwrittenMoveContent applied.newContents))

/-- An update, in place or with a move. A move writes its destination before the source is
removed. -/
def applyUpdate (options : ApplyPatchOptions) (cwd path : Path)
    (movePath : Option Text) (chunks : List UpdateFileChunk) (session : Session σ Path) :
    Except (ApplyHunksError E) Unit × Session σ Path :=
  let session := noteExistingPathDeltaSupport fs path options.followSymlinks session
  match deriveNewContentsFromChunks fs ops path chunks options.updateFileMode
      options.followSymlinks session.files with
  | (.error e, files) => (.error (.patch e), session.withFiles files)
  | (.ok applied, files) =>
    match movePath with
    | none => writeUpdate fs ops path applied options.followSymlinks (session.withFiles files)
    | some dest =>
      match ops.join cwd dest with
      | .error e => (.error (.patch (.pathUri e)), session.withFiles files)
      | .ok destUri =>
        moveUpdate fs ops path destUri applied options.followSymlinks (session.withFiles files)

/-- One hunk, with what it leaves when it fails. -/
def applyHunk (options : ApplyPatchOptions) (cwd : Path) (hunk : Hunk) (session : Session σ Path) :
    Except (ApplyHunksError E) Unit × Session σ Path :=
  match hunk.resolvePath ops cwd with
  | .error e => (.error (.patch (.pathUri e)), session)
  | .ok path =>
    match hunk with
    | .addFile _ contents => applyAdd fs ops path contents options.followSymlinks session
    | .deleteFile _ => applyDelete fs ops path options.followSymlinks session
    | .updateFile _ movePath chunks => applyUpdate fs ops options cwd path movePath chunks session

/-- The entry of the summary for a hunk that succeeded. -/
def AffectedPaths.record (affected : AffectedPaths) (hunk : Hunk) : AffectedPaths :=
  match hunk with
  | .addFile .. => { affected with added := affected.added ++ [hunk.path] }
  | .deleteFile .. => { affected with deleted := affected.deleted ++ [hunk.path] }
  | .updateFile .. => { affected with modified := affected.modified ++ [hunk.path] }

/-- The hunks one after the other, up to the first that fails. -/
def applyHunkList (options : ApplyPatchOptions) (cwd : Path) :
    List Hunk → AffectedPaths → Session σ Path →
      Except (ApplyHunksError E) AffectedPaths × Session σ Path
  | [], affected, session => (.ok affected, session)
  | hunk :: hunks, affected, session =>
    match applyHunk fs ops options cwd hunk session with
    | (.error e, session) => (.error e, session)
    | (.ok (), session) => applyHunkList options cwd hunks (affected.record hunk) session

/-- A patch without hunks is refused before anything is touched. -/
def applyHunksToFiles (hunks : List Hunk) (options : ApplyPatchOptions)
    (cwd : Path) (session : Session σ Path) :
    Except (ApplyHunksError E) AffectedPaths × Session σ Path :=
  if hunks.isEmpty then
    (.error (.message "No files were modified.".toList), session)
  else applyHunkList fs ops options cwd hunks {} session

/-- Paths that are texts and are not joined. -/
def plainPaths : PathOps Text Unit where
  join _ path := .ok path
  parent _ := none
  inferredNativePathString := id

def replaceXByY : UpdateFileChunk where
  oldLines := ["x".toList]
  newLines := ["y".toList]

end Rexux.ApplyPatch
