import Mathlib.Data.List.Dedup
import Rexux.Foundation.Layers
import Rexux.Permissions.Signature

/-!
# The bubblewrap plan

On Linux a command runs behind mounts that bubblewrap sets up in the order of its
arguments.  The plan starts from the file system or from an empty one, binds the
writable roots from the outside in, and masks what must stay read-only or
unreadable around them.

Each constructor of `BwrapMount` stands for a group of flags that the source
writes together.  Opening `/dev/null` and creating the registry directory are
taken to succeed.
-/

namespace Rexux.LinuxSandbox

open Foundation Rexux.Path Rexux.Permissions

inductive SandboxError where
  | fatal (message : Text)
  deriving DecidableEq, Repr

/-- What the construction of the plan asks of the machine, in addition to what the
policy asks. -/
structure SandboxHost extends Host where
  pathExists : AbsolutePath → Bool
  /-- `symlink_metadata`: whether the path is a symbolic link, if it is there. -/
  linkMetadata : AbsolutePath → Option Bool
  canonicalize : AbsolutePath → Option AbsolutePath
  /-- A regular file of length zero. -/
  isEmptyFile : AbsolutePath → Bool
  /-- A directory without entries. -/
  isEmptyDirectory : AbsolutePath → Bool
  syntheticMountRegistryRoot : AbsolutePath
  /-- The paths that ripgrep finds for a nonempty list of patterns. -/
  scanUnreadableGlobs : List Text → AbsolutePath → Option ℕ →
    Except SandboxError (List AbsolutePath)

/-- The mount options that are passed to bwrap. -/
inductive BwrapMount where
  /-- `--ro-bind path path` -/
  | roBind (path : AbsolutePath)
  /-- `--bind path path` -/
  | bind (path : AbsolutePath)
  /-- `--tmpfs path` -/
  | tmpfs (path : AbsolutePath)
  /-- `--dev path` -/
  | dev (path : AbsolutePath)
  /-- `--dir path` -/
  | dir (path : AbsolutePath)
  /-- `--perms perms --tmpfs path --dir dir … --remount-ro path` -/
  | emptyDirectory (perms : Text) (path : AbsolutePath) (dirs : List AbsolutePath)
  /-- `[--perms perms] --ro-bind-data fd path`, with `/dev/null` as data -/
  | emptyFile (perms : Option Text) (path : AbsolutePath)
  deriving DecidableEq, Repr

/-- A mount point that bwrap creates, to be removed afterwards. -/
inductive SyntheticMountTarget where
  | missing (path : AbsolutePath)
  | missingEmptyDirectory (path : AbsolutePath)
  | existingEmptyFile (path : AbsolutePath)
  | existingEmptyDirectory (path : AbsolutePath)
  deriving DecidableEq, Repr

/-- The arguments and what has to be cleaned up or watched. -/
structure BwrapArgs where
  mounts : List BwrapMount
  syntheticMountTargets : List SyntheticMountTarget
  protectedCreateTargets : List AbsolutePath
  deriving DecidableEq, Repr

namespace BwrapArgs

def ofMounts (mounts : List BwrapMount) : BwrapArgs := ⟨mounts, [], []⟩

def append (args others : BwrapArgs) : BwrapArgs where
  mounts := args.mounts ++ others.mounts
  syntheticMountTargets := args.syntheticMountTargets ++ others.syntheticMountTargets
  protectedCreateTargets := args.protectedCreateTargets ++ others.protectedCreateTargets

end BwrapArgs

def concatArgs {α : Type} (args : α → Except SandboxError BwrapArgs) :
    List α → Except SandboxError BwrapArgs
  | [] => .ok (.ofMounts [])
  | item :: items =>
    match args item with
    | .error error => .error error
    | .ok first =>
      match concatArgs args items with
      | .error error => .error error
      | .ok rest => .ok (first.append rest)

/-- The first step of a path that is a link, among the relevant ones. -/
def firstSymlink (host : SandboxHost) (isRelevant : AbsolutePath → Bool) :
    List AbsolutePath → Option AbsolutePath
  | [] => none
  | path :: paths =>
    match host.linkMetadata path with
    | none => none
    | some isLink =>
      if isLink && isRelevant path then some path else firstSymlink host isRelevant paths

variable (policy : FileSystemSandboxPolicy) (host : SandboxHost)
  (allowedWritePaths : List AbsolutePath) (path : AbsolutePath)

/-- Where a path leads, if a link is on the way. -/
def canonicalTargetIfSymlinkedPath : Option AbsolutePath :=
  match firstSymlink host (fun _ => true) path.steps with
  | none => none
  | some _ => (host.canonicalize path).filter (· ≠ path)

def remapPathForSymlinkTarget (root target path : AbsolutePath) : AbsolutePath :=
  if path.startsWith root then path.rebase root target else path

def remapPathsForSymlinkTarget (root : AbsolutePath) (target : Option AbsolutePath)
    (paths : List AbsolutePath) : List AbsolutePath :=
  match target with
  | none => paths
  | some target => paths.map (remapPathForSymlinkTarget root target)

def isWithinAllowedWritePaths : Bool :=
  allowedWritePaths.any (path.startsWith ·)

/-- A link that the sandboxed command could replace. -/
def firstWritableSymlinkComponentInPath : Option AbsolutePath :=
  firstSymlink host (isWithinAllowedWritePaths allowedWritePaths) path.steps

/-- The first step of a path that does not exist. -/
def findFirstNonExistentComponent : Option AbsolutePath :=
  path.steps.find? fun step => !host.pathExists step

def pathDisplay : Text := fromUtf8Lossy path.toBytes

/-- Shallow paths first. -/
def sortByDepth (paths : List AbsolutePath) : List AbsolutePath :=
  paths.insertionSort fun path other => path.components.length ≤ other.components.length

def endsInProtectedMetadataName : Bool :=
  path.components.getLast?.any protectedNames.contains

def mountTargetParentDirs (target anchor : AbsolutePath) : List AbsolutePath :=
  let directory :=
    if host.isDir target then some target
    else if target.components.isEmpty then none
    else some (target.take (target.components.length - 1))
  match directory with
  | none => []
  | some directory => (((.root :: directory.steps).reverse).takeWhile (· ≠ anchor)).reverse

def emptyFileArgs (perms : Option Text) (path : AbsolutePath)
    (targets : List SyntheticMountTarget) : BwrapArgs :=
  ⟨[.emptyFile perms path], targets, []⟩

def emptyDirectoryArgs (target : SyntheticMountTarget) : BwrapArgs :=
  ⟨[.emptyDirectory "555".toList path []], [target], []⟩

def missingReadOnlySubpathArgs : BwrapArgs :=
  if endsInProtectedMetadataName path then
    emptyDirectoryArgs path (.missingEmptyDirectory path)
  else emptyFileArgs none path [.missing path]

def crossesSymlinkMessage (kind : Text) (path symlink : AbsolutePath) : Text :=
  "cannot enforce sandbox ".toList ++ kind ++ " path ".toList ++ pathDisplay path ++
    " because it crosses writable symlink ".toList ++ pathDisplay symlink

/-- The mounts that keep a subpath of a writable root read-only. -/
def readOnlySubpathArgs (subpath : AbsolutePath) : Except SandboxError BwrapArgs :=
  match firstWritableSymlinkComponentInPath host allowedWritePaths subpath with
  | some symlink => .error (.fatal (crossesSymlinkMessage "read-only".toList subpath symlink))
  | none =>
    let isWithin := isWithinAllowedWritePaths allowedWritePaths subpath
    -- An empty mount target that another setup left behind is not bound.
    let isTransient := endsInProtectedMetadataName subpath && isWithin
    if isTransient && host.isEmptyFile subpath then
      .ok (emptyFileArgs none subpath [.existingEmptyFile subpath])
    else if isTransient && host.isEmptyDirectory subpath then
      .ok (emptyDirectoryArgs subpath (.existingEmptyDirectory subpath))
    else if !host.pathExists subpath then
      match findFirstNonExistentComponent host subpath with
      | some missing =>
        if isWithinAllowedWritePaths allowedWritePaths missing then
          .ok (missingReadOnlySubpathArgs missing)
        else .ok (.ofMounts [])
      | none => .ok (.ofMounts [])
    else if isWithin then .ok (.ofMounts [.roBind subpath])
    else .ok (.ofMounts [])

def existingUnreadablePathArgs (unreadable : AbsolutePath) : BwrapArgs :=
  if host.isDir unreadable then
    let descendants := sortByDepth (allowedWritePaths.filter fun path =>
      path ≠ unreadable && path.startsWith unreadable)
    .ofMounts [.emptyDirectory (if descendants.isEmpty then "000".toList else "111".toList)
      unreadable (descendants.flatMap fun path => mountTargetParentDirs host path unreadable)]
  else emptyFileArgs (some "000".toList) unreadable []

/-- The mounts that hide a path. -/
def unreadableRootArgs (unreadable : AbsolutePath) : Except SandboxError BwrapArgs :=
  match firstWritableSymlinkComponentInPath host allowedWritePaths unreadable with
  | some symlink => .error (.fatal (crossesSymlinkMessage "deny-read".toList unreadable symlink))
  | none =>
    if !host.pathExists unreadable then
      match findFirstNonExistentComponent host unreadable with
      | some missing =>
        if isWithinAllowedWritePaths allowedWritePaths missing then
          .ok (emptyFileArgs none missing [.missing missing])
        else .ok (.ofMounts [])
      | none => .ok (.ofMounts [])
    else .ok (existingUnreadablePathArgs host allowedWritePaths unreadable)

def linuxPlatformDefaultReadRoots : List AbsolutePath :=
  ["/bin", "/sbin", "/usr", "/etc", "/lib", "/lib64", "/nix/store",
    "/run/current-system/sw"].map fun path => AbsolutePath.root.append (utf8Bytes path.toList)

def devPath : AbsolutePath := ⟨[utf8Bytes "dev".toList], by decide⟩

def expandUnreadableGlobs (patterns : List Text) (cwd : AbsolutePath) (maxDepth : Option ℕ) :
    Except SandboxError (List AbsolutePath) :=
  if patterns.isEmpty || maxDepth = some 0 then .ok []
  else host.scanUnreadableGlobs patterns cwd maxDepth

def orderedPaths (paths : List AbsolutePath) : List AbsolutePath :=
  (paths.insertionSort fun path other => componentsLe path.components other.components = true).dedup

/-- The text is a protected name as a relative path, where separators and dots after
it do not count. -/
def isMetadataSubpath (subpath : Text) : Bool :=
  match subpath.splitOn '/' with
  | [] => false
  | first :: rest =>
    protectedMetadataPathNames.contains first && rest.all fun part => part.isEmpty || part = ['.']

/-- The path of a metadata entry of the workspace, if nothing is there. -/
def missingMetadataSubpath (cwd : AbsolutePath) (entry : FileSystemSandboxEntry) :
    Option AbsolutePath :=
  match entry.path with
  | .special (.projectRoots (some subpath)) =>
    let resolved := AbsolutePath.resolvePathAgainstBase host.homeDir subpath cwd
    if isMetadataSubpath subpath && !host.pathExists resolved then some resolved else none
  | _ => none

def missingAutoMetadataReadOnlyProjectRootSubpaths (cwd : AbsolutePath) : List AbsolutePath :=
  (policy.entries.filter (·.access = .read)).filterMap (missingMetadataSubpath host cwd)

/-- Writable roots that do not exist are left out. -/
def existingWritableRoots (cwd : AbsolutePath) (unreadableGlobs : List Text) : List WritableRoot :=
  let roots := (policy.getWritableRootsWithCwd host.toHost cwd).filter fun writable =>
    host.pathExists writable.root
  if roots.isEmpty && policy.hasFullDiskWriteAccess && !unreadableGlobs.isEmpty then
    [⟨.root, [], []⟩]
  else roots

def readableMount (writableRoots : List WritableRoot) (root : AbsolutePath) : BwrapMount :=
  if writableRoots.any (root.startsWith ·.root) then
    .roBind ((canonicalTargetIfSymlinkedPath host root).getD root)
  else .roBind root

/-- The mounts below all others. -/
def baseMounts (cwd : AbsolutePath) (writableRoots : List WritableRoot) : List BwrapMount :=
  if policy.hasFullDiskReadAccess then [.roBind .root, .dev devPath]
  else
    let readableRoots := orderedPaths (policy.getReadableRootsWithCwd host.toHost cwd ++
      if policy.includePlatformDefaults then
        linuxPlatformDefaultReadRoots.filter host.pathExists
      else [])
    if readableRoots.contains .root then [.roBind .root, .dev devPath]
    else
      [.tmpfs .root, .dev devPath] ++
        (readableRoots.filter host.pathExists).map (readableMount host writableRoots)

/-- What the arguments of a writable root depend on. -/
structure PlanContext where
  host : SandboxHost
  unreadableRoots : List AbsolutePath
  missingMetadata : List AbsolutePath
  allowedWritePaths : List AbsolutePath

def appendMetadataPathMasks (root : AbsolutePath) (subpaths : List AbsolutePath)
    (names : List Text) : List AbsolutePath :=
  names.foldl (fun subpaths name =>
    if subpaths.contains (childPath root name) then subpaths
    else subpaths ++ [childPath root name]) subpaths

/-- The subpaths of a writable root that stay read-only. -/
def maskedSubpaths (context : PlanContext) (writable : WritableRoot) : List AbsolutePath :=
  appendMetadataPathMasks writable.root
    ((writable.readOnlySubpaths.filter fun path =>
      !context.unreadableRoots.contains path).filter fun path =>
        !context.missingMetadata.contains path)
    writable.protectedMetadataNames

def protectedCreateTargets (root : AbsolutePath) (symlinkTarget : Option AbsolutePath)
    (subpaths : List AbsolutePath) (names : List Text) : List AbsolutePath :=
  (remapPathsForSymlinkTarget root symlinkTarget (names.map (childPath root))).filter
    fun path => !(subpaths.contains path || host.pathExists path)

/-- The registry stays read-only where the bind exposes it. -/
def registryMounts (mountRoot : AbsolutePath) : List BwrapMount :=
  let registry := host.syntheticMountRegistryRoot
  if registry.startsWith mountRoot then [.roBind registry]
  else if mountRoot.startsWith registry then [.roBind mountRoot]
  else []

/-- The mount points that a mask above the root has hidden. -/
def maskingParents (context : PlanContext) (root : AbsolutePath) : List BwrapMount :=
  match maxByKey (fun path : AbsolutePath => path.components.length)
      (context.unreadableRoots.filter (root.startsWith ·)) with
  | some masking => (mountTargetParentDirs context.host root masking).map .dir
  | none => []

/-- The mounts of one writable root. -/
def writableRootArgs (context : PlanContext) (writable : WritableRoot) :
    Except SandboxError BwrapArgs :=
  let host := context.host
  let root := writable.root
  let symlinkTarget := canonicalTargetIfSymlinkedPath host root
  let mountRoot := symlinkTarget.getD root
  let subpaths := remapPathsForSymlinkTarget root symlinkTarget (maskedSubpaths context writable)
  let nested := remapPathsForSymlinkTarget root symlinkTarget
    (context.unreadableRoots.filter (·.startsWith root))
  match concatArgs (readOnlySubpathArgs host context.allowedWritePaths)
      (sortByDepth subpaths) with
  | .error error => .error error
  | .ok readOnly =>
    match concatArgs (unreadableRootArgs host context.allowedWritePaths)
        (sortByDepth nested) with
    | .error error => .error error
    | .ok unreadable =>
      let bound : BwrapArgs :=
        ⟨maskingParents context root ++ [.bind mountRoot], [],
          protectedCreateTargets host root symlinkTarget subpaths writable.protectedMetadataNames⟩
      .ok (((bound.append readOnly).append
        (.ofMounts (registryMounts host mountRoot))).append unreadable)

def allowedWritePathsOf (roots : List WritableRoot) : List AbsolutePath :=
  roots.flatMap fun writable =>
    writable.root :: (canonicalTargetIfSymlinkedPath host writable.root).toList

def sortRootsByDepth (roots : List WritableRoot) : List WritableRoot :=
  roots.insertionSort fun writable other =>
    writable.root.components.length ≤ other.root.components.length

/-- Unreadable roots above writable ones and below none. -/
def unreadableAncestors (unreadableRoots allowedWritePaths : List AbsolutePath) :
    List AbsolutePath :=
  sortByDepth (unreadableRoots.filter fun unreadable =>
    !isWithinAllowedWritePaths allowedWritePaths unreadable &&
      allowedWritePaths.any (·.startsWith unreadable))

def rootlessUnreadableRoots (unreadableRoots allowedWritePaths : List AbsolutePath) :
    List AbsolutePath :=
  sortByDepth (unreadableRoots.filter fun unreadable =>
    !allowedWritePaths.any fun root => unreadable.startsWith root || root.startsWith unreadable)

/-- The mounts over the base: masks, writable roots, and masks again. -/
def overlayArgs (cwd : AbsolutePath) (roots : List WritableRoot)
    (unreadableRoots : List AbsolutePath) : Except SandboxError BwrapArgs :=
  let allowed := allowedWritePathsOf host roots
  let context : PlanContext :=
    ⟨host, unreadableRoots, missingAutoMetadataReadOnlyProjectRootSubpaths policy host cwd, allowed⟩
  match concatArgs (unreadableRootArgs host allowed)
      (unreadableAncestors unreadableRoots allowed) with
  | .error error => .error error
  | .ok ancestors =>
    match concatArgs (writableRootArgs context) (sortRootsByDepth roots) with
    | .error error => .error error
    | .ok writable =>
      match concatArgs (unreadableRootArgs host allowed)
          (rootlessUnreadableRoots unreadableRoots allowed) with
      | .error error => .error error
      | .ok rootless =>
        .ok ((((BwrapArgs.ofMounts (baseMounts policy host cwd roots)).append
          ancestors).append writable).append rootless)

/-- The file-system part of the command line. -/
def createFilesystemArgs (cwd : AbsolutePath) (globScanMaxDepth : Option ℕ) :
    Except SandboxError BwrapArgs :=
  let globs := policy.getUnreadableGlobsWithCwd host.toHost cwd
  let roots := existingWritableRoots policy host cwd globs
  match expandUnreadableGlobs host globs cwd globScanMaxDepth with
  | .error error => .error error
  | .ok expanded =>
    overlayArgs policy host cwd roots
      (orderedPaths (policy.getUnreadableRootsWithCwd host.toHost cwd ++ expanded))

/-- What is seen at a path inside the sandbox. -/
inductive View where
  | host (writable : Bool)
  | empty
  | scratch
  | devices
  deriving DecidableEq, Repr

def mountTarget : List Bytes :=
  path.components.map fun component => utf8Bytes (fromUtf8Lossy component)

def BwrapMount.layers : BwrapMount → List (Layer Bytes View)
  | .roBind path => [⟨mountTarget path, .host false⟩]
  | .bind path => [⟨mountTarget path, .host true⟩]
  | .tmpfs path => [⟨mountTarget path, .scratch⟩]
  | .dev path => [⟨mountTarget path, .devices⟩]
  | .dir _ => []
  | .emptyDirectory _ path _ => [⟨mountTarget path, .empty⟩]
  | .emptyFile _ path => [⟨mountTarget path, .empty⟩]

def BwrapArgs.layers (args : BwrapArgs) : List (Layer Bytes View) :=
  args.mounts.flatMap BwrapMount.layers

/-- What stands at a path once every mount is made. -/
def BwrapArgs.viewAt (args : BwrapArgs) (path : AbsolutePath) : Option View :=
  (shownAt args.layers path.components).map (·.content)

def BwrapArgs.isVisible (args : BwrapArgs) (host : SandboxHost) (path : AbsolutePath) : Bool :=
  host.pathExists path &&
    (args.viewAt path = some (.host true) || args.viewAt path = some (.host false))

def BwrapArgs.isWritable (args : BwrapArgs) (path : AbsolutePath) : Bool :=
  args.viewAt path = some (.host true) || args.viewAt path = some .scratch ||
    args.viewAt path = some .devices

end Rexux.LinuxSandbox
