import Rexux.Permissions.NestedRoots

/-!
# Projected writable roots

Sandboxes cannot ask for a decision on each path.  They receive a list of
writable roots, each with the subpaths below it that stay read-only and the names
of metadata that must not be created.

The projection resolves entries to paths of the host, while decisions compare
URIs.  Both readings give the same rules on ordinary paths
(`filter_rules_eq`), so that decisions can be said in terms of the host.
-/

namespace Rexux.Permissions

open Foundation Rexux.Path List PathUri AbsolutePath FileSystemPath

/-- What the policy code asks of the machine it runs on. -/
structure Host where
  homeDir : Option AbsolutePath
  /-- The directory of `TMPDIR`, made absolute. -/
  temporaryDirectory : Option AbsolutePath
  isDir : AbsolutePath → Bool
  isFile : AbsolutePath → Bool
  /-- The directory that a `.git` file points to. -/
  gitdir : AbsolutePath → Option AbsolutePath
  /-- The path with symbolic links resolved, as far as it exists. -/
  normalizeEffective : AbsolutePath → AbsolutePath
  /-- The path with a symbolic link at the top level resolved. -/
  normalizeTrustedTopLevelAlias : AbsolutePath → AbsolutePath

def slashTmp : AbsolutePath := ⟨[utf8Bytes "tmp".toList], by decide⟩

/-- The context of a command that runs on the host. -/
def localContext (host : Host) (cwd : AbsolutePath) : FileSystemSandboxPolicyContext where
  cwd := .fromAbsPath cwd
  workspaceRoots := [.fromAbsPath cwd]
  userHomeDir := host.homeDir.map .fromAbsPath
  temporaryDirectories := some (host.temporaryDirectory.map fromAbsPath).toList

def resolveEntryPath (path : FileSystemPath) (host : Host) (cwd : AbsolutePath) :
    Option AbsolutePath :=
  match path with
  | .path uri => uri.toAbsPath
  | .globPattern _ => none
  | .special value =>
    match value with
    | .root => some .root
    | .minimal => none
    | .unknown _ _ => none
    | .projectRoots subpath =>
      match subpath with
      | some subpath => some (resolvePathAgainstBase host.homeDir subpath cwd)
      | none => some cwd
    | .tmpdir => host.temporaryDirectory
    | .slashTmp => if host.isDir slashTmp then some slashTmp else none

def childPath (path : AbsolutePath) (name : Text) : AbsolutePath :=
  absolutizeFrom (utf8Bytes name) path

def dedupAbsolutePaths (paths : List AbsolutePath) : List AbsolutePath :=
  paths.foldl (fun kept path => if kept.contains path then kept else kept ++ [path]) []

def defaultReadOnlySubpathsForWritableRoot (host : Host) (root : AbsolutePath)
    (protectMissingDotCodex : Bool) : List AbsolutePath :=
  let git := childPath root ".git".toList
  let agents := childPath root ".agents".toList
  let codex := childPath root ".rexux".toList
  dedupAbsolutePaths
    ((if host.isDir git || host.isFile git then
        (if host.isFile git then (host.gitdir git).toList else []) ++ [git]
      else []) ++
      (if host.isDir agents then [agents] else []) ++
      (if protectMissingDotCodex || host.isDir codex then [codex] else []))

/-! ## Writable roots -/

structure WritableRoot where
  root : AbsolutePath
  readOnlySubpaths : List AbsolutePath
  protectedMetadataNames : List Text
  deriving DecidableEq, Repr

namespace WritableRoot

def pathContainsProtectedMetadataName (writable : WritableRoot) (path : AbsolutePath) : Bool :=
  match List.isPrefixOf? writable.root.components path.components with
  | some (first :: _) => writable.protectedMetadataNames.any fun name => first = utf8Bytes name
  | _ => false

def isPathWritable (writable : WritableRoot) (path : AbsolutePath) : Bool :=
  if !path.startsWith writable.root then false
  else if writable.readOnlySubpaths.any (path.startsWith ·) then false
  else if writable.pathContainsProtectedMetadataName path then false
  else true

end WritableRoot

/-- The same root, with the same carve-outs and names in any order. -/
structure WritableRoot.Same (writable other : WritableRoot) : Prop where
  root : writable.root = other.root
  readOnlySubpaths : ∀ path, path ∈ writable.readOnlySubpaths ↔ path ∈ other.readOnlySubpaths
  protectedMetadataNames : ∀ name,
    name ∈ writable.protectedMetadataNames ↔ name ∈ other.protectedMetadataNames

/-- Each root of one list is a root of the other list. -/
structure SameRoots (roots others : List WritableRoot) : Prop where
  left : ∀ root ∈ roots, ∃ other ∈ others, root.Same other
  right : ∀ other ∈ others, ∃ root ∈ roots, root.Same other

theorem SameRoots.symm {roots others : List WritableRoot} (h : SameRoots roots others) :
    SameRoots others roots := by
  have hsame : ∀ {writable other : WritableRoot}, writable.Same other →
      other.Same writable := fun hsame =>
    ⟨hsame.root.symm, fun path => (hsame.readOnlySubpaths path).symm,
      fun name => (hsame.protectedMetadataNames name).symm⟩
  constructor
  · intro other hother
    obtain ⟨root, hroot, hroots⟩ := h.right other hother
    exact ⟨root, hroot, hsame hroots⟩
  · intro root hroot
    obtain ⟨other, hother, hroots⟩ := h.left root hroot
    exact ⟨other, hother, hsame hroots⟩

namespace FileSystemSandboxPolicy

variable (policy : FileSystemSandboxPolicy) (host : Host) (resolve : AbsolutePath → AbsolutePath)
  (cwd : AbsolutePath)

def resolvedEntriesWithCwd : List (AbsolutePath × FileSystemAccessMode) :=
  policy.entries.filterMap fun entry =>
    (resolveEntryPath entry.path host cwd).map fun path => (path, entry.access)

def canReadPathWithCwd (path cwd : AbsolutePath) : Bool :=
  (policy.resolveAccess (.fromAbsPath path) (localContext host cwd)).canRead

def canWritePathWithCwd (path cwd : AbsolutePath) : Bool :=
  policy.canWritePath (.fromAbsPath path) (localContext host cwd)

/-- A path strictly below a raw root, moved below the resolved root. -/
def rebasedPath (root path rawRoot : AbsolutePath) : Option AbsolutePath :=
  match List.isPrefixOf? rawRoot.components path.components with
  | some (first :: rest) => some (root.joinSuffix host.homeDir first rest)
  | _ => none

/-- The read-only path that an entry becomes below a root.  Paths that were
written below the root keep their spelling. -/
def carveout (rawRoots : List AbsolutePath) (root path : AbsolutePath) : Option AbsolutePath :=
  let raw :=
    if root.components.isEmpty || path = root then none
    else if path.startsWith root then some path
    else rawRoots.findSome? (rebasedPath host root path)
  match raw with
  | some path => some path
  | none =>
    let effective := resolve path
    if effective = root || !effective.startsWith root then none else some effective

def protectedMetadataNamesForWritableRoot (root : AbsolutePath) (rawRoots : List AbsolutePath)
    (cwd : AbsolutePath) : List Text :=
  protectedMetadataPathNames.filter fun name =>
    (root :: rawRoots).all fun root => !policy.canWritePathWithCwd host (childPath root name) cwd

def projectRoot (writableEntries : List AbsolutePath) (root : AbsolutePath) : WritableRoot :=
  let resolved := policy.resolvedEntriesWithCwd host cwd
  let rawRoots := writableEntries.filter (resolve · = root)
  { root := root
    protectedMetadataNames := policy.protectedMetadataNamesForWritableRoot host root rawRoots cwd
    readOnlySubpaths := dedupAbsolutePaths
      ((defaultReadOnlySubpathsForWritableRoot host root (resolve cwd = root)).filter
          (fun path => !resolved.any (·.1 = path)) ++
        (resolved.filter fun entry =>
          !entry.2.canWrite && !policy.canWritePathWithCwd host entry.1 cwd).filterMap
            fun entry => carveout host resolve rawRoots root entry.1) }

def writableEntries : List AbsolutePath :=
  ((policy.resolvedEntriesWithCwd host cwd).filter fun entry =>
    entry.2.canWrite && policy.canWritePathWithCwd host entry.1 cwd).map Prod.fst

def getWritableRootsWithCwdImpl : List WritableRoot :=
  if policy.hasFullDiskWriteAccess then []
  else
    let writable := policy.writableEntries host cwd
    (dedupAbsolutePaths (writable.map resolve)).map (policy.projectRoot host resolve cwd writable)

def getWritableRootsWithCwd : List WritableRoot :=
  policy.getWritableRootsWithCwdImpl host host.normalizeEffective cwd

def getWritableRootsWithCwdPreservingMutablePaths : List WritableRoot :=
  policy.getWritableRootsWithCwdImpl host host.normalizeTrustedTopLevelAlias cwd

end FileSystemSandboxPolicy

/-! ## Lists of paths -/

variable {path : AbsolutePath}

theorem mem_ite_contains {kept : List AbsolutePath} {first : AbsolutePath} :
    (path ∈ if kept.contains first then kept else kept ++ [first]) ↔
      path ∈ kept ∨ path = first := by
  split
  next hmem =>
    refine ⟨.inl, ?_⟩
    rintro (h | rfl)
    · exact h
    · simpa using hmem
  · rw [mem_append, mem_singleton]

theorem mem_dedupAbsolutePaths {paths : List AbsolutePath} :
    path ∈ dedupAbsolutePaths paths ↔ path ∈ paths := by
  have hfold : ∀ kept : List AbsolutePath, path ∈ paths.foldl
          (fun kept path => if kept.contains path then kept else kept ++ [path]) kept ↔
        path ∈ kept ∨ path ∈ paths := by
    induction paths with
    | nil => simp
    | cons first rest ih =>
      intro kept
      rw [foldl_cons, ih, mem_ite_contains, mem_cons, or_assoc]
  rw [dedupAbsolutePaths, hfold]
  simp

theorem components_childPath {name : Text} (path : AbsolutePath)
    (h : name ∈ protectedMetadataPathNames) :
    (childPath path name).components = path.components ++ [utf8Bytes name] := by
  have hparts : (utf8Bytes name).head? ≠ some 0x2F ∧
      (utf8Bytes name).splitOn 0x2F = [utf8Bytes name] ∧ utf8Bytes name ≠ [] ∧
      utf8Bytes name ≠ [0x2E] ∧ utf8Bytes name ≠ [0x2E, 0x2E] := by
    revert h name
    decide
  obtain ⟨hhead, hsplit, hnil, hdot, hdots⟩ := hparts
  simp [childPath, absolutizeFrom, hhead, append, hsplit, normalizeStep, hnil, hdot, hdots]

theorem not_isDriveName_of_mem {name : Bytes} (h : name ∈ protectedNames) :
    isDriveName name = false ∧ 0 ∉ name := by
  revert h name
  decide

theorem isOrdinary_childPath {name : Text} (hpath : path.IsOrdinary)
    (h : name ∈ protectedMetadataPathNames) : (childPath path name).IsOrdinary := by
  obtain ⟨hdrive, hnull⟩ := not_isDriveName_of_mem (mem_map_of_mem h)
  constructor
  · rw [components_childPath path h]
    exact forall_mem_append.mpr ⟨hpath.nullFree, forall_mem_singleton.mpr hnull⟩
  · rw [components_childPath path h]
    have hhead := hpath.noDrive
    cases hcomponents : path.components with
    | nil => simpa using hdrive
    | cons first rest =>
      rw [hcomponents] at hhead
      exact hhead

/-- No symbolic links, and a directory `/tmp`. -/
structure Host.IsLinkFree (host : Host) : Prop where
  noLinks : ∀ path, host.normalizeEffective path = path
  tmp : host.isDir slashTmp = true

/-- There is also no metadata on disk. -/
structure Host.IsBare (host : Host) : Prop extends host.IsLinkFree where
  noMetadata : ∀ path, ∀ name ∈ protectedMetadataPathNames,
    host.isDir (childPath path name) = false ∧ host.isFile (childPath path name) = false

def bareHost : Host where
  homeDir := none
  temporaryDirectory := none
  isDir path := path = slashTmp
  isFile _ := false
  gitdir _ := none
  normalizeEffective path := path
  normalizeTrustedTopLevelAlias path := path

theorem isBare_bareHost : bareHost.IsBare where
  noLinks _ := rfl
  tmp := by decide
  noMetadata path name hname := by
    refine ⟨?_, rfl⟩
    simp only [bareHost, decide_eq_false_iff_not]
    intro heq
    -- The last component is a protected name, not `tmp`.
    have hlast := congrArg (fun p => p.components.getLast?) heq
    simp only [components_childPath path hname, getLast?_concat] at hlast
    simp only [protectedMetadataPathNames, mem_cons, not_mem_nil, or_false] at hname
    rcases hname with rfl | rfl | rfl <;> exact absurd hlast (by decide)

def pathOf (components : List String) : AbsolutePath :=
  components.foldl (fun path name => path.append (utf8Bytes name.toList)) .root

def entryAt (components : List String) (access : FileSystemAccessMode) : FileSystemSandboxEntry :=
  .new (.path (.fromAbsPath (pathOf components))) access

/-- Both resolvers take the subpath of a workspace root to the same place.  They
differ on texts that start with `~`, on those that hold a null character, a tab or a
line break, and on a drive letter with a bar below the file system root. -/
def SubpathReadAlike (host : Host) (cwd : AbsolutePath) (subpath : Text) : Prop :=
  ∀ path : AbsolutePath, path.IsOrdinary →
    (resolvePathAgainstBase host.homeDir subpath cwd = path ↔
      ∃ uri, (fromAbsPath cwd).join subpath = .ok uri ∧ uri.IsPlain ∧
        uri.components = path.components)

def isOrdinaryRule (rule : List Bytes × FileSystemAccessMode) : Bool :=
  rule.1.all (fun component => !component.contains 0) && !rule.1.head?.any isDriveName

theorem isOrdinaryRule_iff (path : AbsolutePath) (mode : FileSystemAccessMode) :
    isOrdinaryRule (path.components, mode) ↔ path.IsOrdinary := by
  simp only [isOrdinaryRule, Bool.and_eq_true, all_eq_true, Bool.not_eq_true',
    contains_eq_mem, decide_eq_false_iff_not]
  exact ⟨fun h => ⟨h.1, h.2⟩, fun h => ⟨h.nullFree, h.noDrive⟩⟩

namespace FileSystemSandboxPolicy

/-- Every subpath of a workspace root is read alike. -/
def SubpathsReadAlike (policy : FileSystemSandboxPolicy) (host : Host)
    (cwd : AbsolutePath) : Prop :=
  ∀ entry ∈ policy.entries, ∀ subpath,
    entry.path = .special (.projectRoots (some subpath)) → SubpathReadAlike host cwd subpath

def hostRules (policy : FileSystemSandboxPolicy) (host : Host) (cwd : AbsolutePath) :
    List (List Bytes × FileSystemAccessMode) :=
  ((policy.resolvedEntriesWithCwd host cwd).filter (·.1.IsOrdinary)).map fun entry =>
    (entry.1.components, entry.2)

end FileSystemSandboxPolicy

theorem lexicalRules_append (entries entries' : List (PathUri × FileSystemAccessMode)) :
    lexicalRules (entries ++ entries') = lexicalRules entries ++ lexicalRules entries' := by
  simp [lexicalRules]

/-- The rule of a single URI next to the rule of the path it stands for. -/
structure SameOrdinaryPath (uri : Option PathUri) (path : Option AbsolutePath) : Prop where
  toPath : ∀ u, uri = some u → u.inferPathConvention = some .posix → u.IsPlain →
    ∀ p : AbsolutePath, p.components = u.components → p.IsOrdinary → path = some p
  toUri : ∀ p, path = some p → p.IsOrdinary →
    ∃ u, uri = some u ∧ u.IsPlain ∧ u.components = p.components

theorem SameOrdinaryPath.rules_eq {uri : Option PathUri} {path : Option AbsolutePath}
    (h : SameOrdinaryPath uri path) (mode : FileSystemAccessMode) :
    (lexicalRules ((uri.toList.filter fun u =>
        u.inferPathConvention = some .posix).map fun u => (u, mode))).filter isOrdinaryRule =
      (path.toList.filter fun p => decide p.IsOrdinary).map fun p => (p.components, mode) := by
  by_cases hpath : ∃ p, path = some p ∧ p.IsOrdinary
  · obtain ⟨p, rfl, hordinary⟩ := hpath
    obtain ⟨u, rfl, hplain, hcomponents⟩ := h.toUri p rfl hordinary
    have hrule := (isOrdinaryRule_iff p mode).mpr hordinary
    simp [lexicalRules, hplain.posix, hplain.lexicalDepth_eq, hcomponents, hrule, hordinary]
  · have hright : (path.toList.filter fun p => decide p.IsOrdinary) = [] := by
      rw [filter_eq_nil_iff]
      intro p hp
      rw [Option.mem_toList] at hp
      simpa using fun hordinary => hpath ⟨p, hp, hordinary⟩
    rw [hright, map_nil, filter_eq_nil_iff]
    rintro rule hrule hordinary
    obtain ⟨entry, hentry, rfl⟩ := mem_map.mp hrule
    obtain ⟨hmem, hdepth⟩ := mem_filter.mp hentry
    obtain ⟨u, hu, rfl⟩ := mem_map.mp hmem
    obtain ⟨huri, hposix⟩ := mem_filter.mp hu
    have hposix : u.inferPathConvention = some .posix := of_decide_eq_true hposix
    obtain ⟨depth, hdepth⟩ := Option.isSome_iff_exists.mp hdepth
    have hplain := (isPlain_of_lexicalDepth hposix hdepth).1
    obtain ⟨p, -, hcomponents⟩ := hplain.toAbsPath_spec
    rw [← hcomponents, isOrdinaryRule_iff] at hordinary
    exact hpath ⟨p, h.toPath u (by simpa using huri) hposix hplain p hcomponents hordinary,
      hordinary⟩

theorem sameOrdinaryPath_fromAbsPath (path : Option AbsolutePath) :
    SameOrdinaryPath (path.map fromAbsPath) path where
  toPath u hu _ hplain p hcomponents hordinary := by
    obtain ⟨q, rfl, rfl⟩ := Option.map_eq_some_iff.mp hu
    have hq := (fromAbsPath_of_ordinary ((isPlain_fromAbsPath_iff q).mp hplain)).2
    rw [ext (hcomponents.trans hq)]
  toUri p hp hordinary := by
    obtain ⟨hplain, hcomponents⟩ := fromAbsPath_of_ordinary hordinary
    exact ⟨.fromAbsPath p, by simp [hp], hplain, hcomponents⟩

theorem sameOrdinaryPath_of_path {uri : PathUri}
    (h : uri.inferPathConvention = some .posix → isAmbiguous uri = false) :
    SameOrdinaryPath (some uri) uri.toAbsPath where
  toPath u hu _ hplain p hcomponents _ := by
    obtain rfl := Option.some.inj hu
    obtain ⟨q, hq, hsame⟩ := hplain.toAbsPath_spec
    rw [hq, ext (hcomponents.trans hsame.symm)]
  toUri p hp hordinary := by
    have hposix : uri.inferPathConvention = some .posix := by
      by_contra hnot
      simp [toAbsPath, hnot] at hp
    have htransparent : uri.isOpaque = false := by
      by_contra hblob
      exact not_isOrdinary_of_opaque (Bool.eq_true_of_not_eq_false hblob) hp hordinary
    have hdepth : uri.lexicalDepth.isSome := by
      have hknown := h hposix
      simpa [isAmbiguous, htransparent] using hknown
    obtain ⟨depth, hdepth⟩ := Option.isSome_iff_exists.mp hdepth
    have hplain := (isPlain_of_lexicalDepth hposix hdepth).1
    obtain ⟨q, hq, hsame⟩ := hplain.toAbsPath_spec
    obtain rfl := Option.some.inj (hq.symm.trans hp)
    exact ⟨uri, rfl, hplain, hsame.symm⟩

variable {host : Host} {cwd : AbsolutePath}

theorem sameOrdinaryPath_of_subpath {subpath : Text} (h : SubpathReadAlike host cwd subpath) :
    SameOrdinaryPath ((fromAbsPath cwd).join subpath).toOption
      (some (resolvePathAgainstBase host.homeDir subpath cwd)) where
  toPath u hu _ hplain p hcomponents hordinary := by
    have hjoin : (fromAbsPath cwd).join subpath = .ok u := by
      cases hresult : (fromAbsPath cwd).join subpath with
      | error e => simp [hresult, Except.toOption] at hu
      | ok v => simpa [hresult, Except.toOption] using hu
    rw [(h p hordinary).mpr ⟨u, hjoin, hplain, hcomponents.symm⟩]
  toUri p hp hordinary := by
    obtain ⟨u, hjoin, hplain, hcomponents⟩ := (h p hordinary).mp (Option.some.inj hp)
    exact ⟨u, by simp [hjoin, Except.toOption], hplain, hcomponents⟩

theorem join_slashTmp (uri : PathUri) : uri.join "/tmp".toList = .ok (fromAbsPath slashTmp) := by
  rfl

/-- Both resolvers give an entry the same ordinary path. -/
theorem exists_sameOrdinaryPath {path : FileSystemPath}
    (hcwd : cwd.IsOrdinary) (htmp : host.isDir slashTmp)
    (hsubpath : ∀ subpath, path = .special (.projectRoots (some subpath)) →
      SubpathReadAlike host cwd subpath)
    (hambiguous : ∀ uri ∈ path.resolve (localContext host cwd),
      uri.inferPathConvention = some .posix → isAmbiguous uri = false) :
    ∃ uri : Option PathUri, path.resolve (localContext host cwd) = uri.toList ∧
      SameOrdinaryPath uri (resolveEntryPath path host cwd) := by
  have hplain := (fromAbsPath_of_ordinary hcwd).1
  have hnone : SameOrdinaryPath none none := ⟨nofun, nofun⟩
  cases path with
  | path uri =>
    refine ⟨some uri, rfl, sameOrdinaryPath_of_path ?_⟩
    exact hambiguous uri (by simp [resolve])
  | globPattern pattern => exact ⟨none, rfl, hnone⟩
  | special value =>
    cases value with
    | root =>
      obtain ⟨hrootPlain, hrootComponents⟩ := hplain.rootAncestor_spec
      refine ⟨some (fromAbsPath cwd).rootAncestor, ?_, ?_, ?_⟩
      · simp [resolve, FileSystemSandboxPolicyContext.fileSystemRoot,
          localContext, hplain.lexicalDepth_eq]
      · intro u hu _ _ p hcomponents _
        obtain rfl := Option.some.inj hu
        rw [hrootComponents] at hcomponents
        exact congrArg some (ext (hcomponents.trans rfl : _ = AbsolutePath.root.components)).symm
      · intro p hp _
        obtain rfl := Option.some.inj hp
        exact ⟨_, rfl, hrootPlain, hrootComponents⟩
    | minimal | unknown => exact ⟨none, rfl, hnone⟩
    | projectRoots subpath =>
      cases subpath with
      | none =>
        refine ⟨(some cwd).map fromAbsPath, ?_, sameOrdinaryPath_fromAbsPath (some cwd)⟩
        simp [resolve, localContext, projectRootPath]
      | some subpath =>
        refine ⟨((fromAbsPath cwd).join subpath).toOption, ?_,
          sameOrdinaryPath_of_subpath (hsubpath subpath rfl)⟩
        cases hjoin : (fromAbsPath cwd).join subpath <;>
          simp [resolve, localContext, projectRootPath, hjoin, Except.toOption]
    | tmpdir =>
      refine ⟨host.temporaryDirectory.map fromAbsPath, ?_, sameOrdinaryPath_fromAbsPath _⟩
      simp [resolve, localContext]
    | slashTmp =>
      refine ⟨(some slashTmp).map fromAbsPath, ?_, ?_⟩
      · simp only [resolve, localContext, hplain.posix]
        rfl
      · have hresolve : resolveEntryPath (.special .slashTmp) host cwd = some slashTmp := by
          simp [resolveEntryPath, htmp]
        rw [hresolve]
        exact sameOrdinaryPath_fromAbsPath (some slashTmp)

namespace FileSystemSandboxPolicy

variable {policy : FileSystemSandboxPolicy}

/-- So the rules by URIs and by host paths agree on ordinary paths. -/
theorem filter_rules_eq (hcwd : cwd.IsOrdinary) (htmp : host.isDir slashTmp)
    (halike : policy.SubpathsReadAlike host cwd)
    (hcomparable : policy.IsComparable (localContext host cwd)) :
    (policy.rules (localContext host cwd)).filter isOrdinaryRule = policy.hostRules host cwd := by
  have hposix : (localContext host cwd).HasPosixCwd := inferPathConvention_fromAbsPath cwd
  unfold rules hostRules resolvedEntries resolvedEntriesWithCwd
  unfold SubpathsReadAlike at halike
  unfold IsComparable resolvedEntries at hcomparable
  generalize policy.entries = entries at halike hcomparable
  induction entries with
  | nil => rfl
  | cons entry entries ih =>
    rw [forall_mem_cons] at halike
    rw [flatMap_cons, forall_mem_append] at hcomparable
    obtain ⟨uri, huri, hsame⟩ := exists_sameOrdinaryPath hcwd htmp halike.1 (by
      intro uri huri hconvention
      refine hcomparable.1 (uri, entry.access) (mem_map.mpr ⟨uri, ?_, rfl⟩)
      rw [mem_filter, hposix]
      exact ⟨huri, decide_eq_true hconvention⟩)
    have hrules := hsame.rules_eq entry.access
    rw [flatMap_cons, lexicalRules_append, filter_append,
      ih halike.2 hcomparable.2, FileSystemSandboxEntry.resolve, huri, hposix, hrules]
    cases hpath : resolveEntryPath entry.path host cwd with
    | none => simp [hpath]
    | some p => by_cases hordinary : p.IsOrdinary <;> simp [hpath, hordinary]

theorem isOrdinaryRule_of_isPrefix (hpath : path.IsOrdinary) :
    ∀ rule ∈ policy.rules (localContext host cwd), rule.1 <+: path.components →
      isOrdinaryRule rule := by
  intro rule hrule habove
  obtain ⟨uri, -, hplain, hcomponents⟩ := (mem_rules (inferPathConvention_fromAbsPath cwd)).mp hrule
  obtain ⟨p, -, hsame⟩ := hplain.toAbsPath_spec
  have hrule : rule = (p.components, rule.2) := by
    rw [hsame, hcomponents]
  rw [hrule, isOrdinaryRule_iff]
  refine hpath.of_prefix ?_
  rw [hsame, hcomponents]
  exact habove

/-- A path can be written exactly if the rules say so and no metadata is in the way. -/
theorem canWritePathWithCwd_iff (hkind : policy.kind = .restricted)
    (hdisk : policy.hasFullDiskWriteAccess = false) (htmp : host.isDir slashTmp)
    (halike : policy.SubpathsReadAlike host cwd) :
    policy.canWritePathWithCwd host path cwd ↔
      cwd.IsOrdinary ∧ path.IsOrdinary ∧ policy.IsComparable (localContext host cwd) ∧
        WritableAt (policy.hostRules host cwd) path.components := by
  unfold canWritePathWithCwd
  rw [canWritePath_iff hkind (inferPathConvention_fromAbsPath cwd) hdisk]
  change (fromAbsPath cwd).IsPlain ∧ _ ↔ _
  rw [isPlain_fromAbsPath_iff, isPlain_fromAbsPath_iff]
  refine and_congr_right fun hcwd => and_congr_right fun hpath =>
    and_congr_right fun hcomparable => ?_
  rw [(fromAbsPath_of_ordinary hpath).2, ← filter_rules_eq hcwd htmp halike
    hcomparable, writableAt_filter_iff]
  · rfl
  · exact isOrdinaryRule_of_isPrefix hpath

theorem mem_hostRules {rule : List Bytes × FileSystemAccessMode} :
    rule ∈ policy.hostRules host cwd ↔
      ∃ path, (path, rule.2) ∈ policy.resolvedEntriesWithCwd host cwd ∧
        path.IsOrdinary ∧ path.components = rule.1 := by
  simp only [hostRules, mem_map, mem_filter, decide_eq_true_eq]
  constructor
  · rintro ⟨entry, ⟨hmem, hordinary⟩, rfl⟩
    exact ⟨entry.1, hmem, hordinary, rfl⟩
  · rintro ⟨path, hmem, hordinary, hcomponents⟩
    exact ⟨(path, rule.2), ⟨hmem, hordinary⟩, by rw [hcomponents]⟩

end FileSystemSandboxPolicy

end Rexux.Permissions
