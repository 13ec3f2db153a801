import Rexux.Permissions.Signature

/-!
# Legacy sandbox policies

Older runtimes enforce one of four fixed policies.  A restricted policy is
projected to one of them, and the runtime may be used if the file system policy
that it enforces has the signature of the original.

The signature leaves three things open, so the two policies may still decide
differently: full access of a restricted policy becomes an unrestricted policy,
an entry with an encoded separator denies everything only in the original, and
the target of a `.git` file is read-only only in the legacy policy.
-/

namespace Rexux.Permissions

open Foundation Rexux.Path List FileSystemSandboxEntry

inductive NetworkSandboxPolicy where
  | restricted
  | enabled
  deriving DecidableEq, Repr

def NetworkSandboxPolicy.isEnabled : NetworkSandboxPolicy → Bool
  | .restricted => false
  | .enabled => true

inductive NetworkAccess where
  | restricted
  | enabled
  deriving DecidableEq, Repr

/-- The older policies, which the platform sandboxes understand. -/
inductive SandboxPolicy where
  | dangerFullAccess
  | readOnly (networkAccess : Bool)
  | externalSandbox (networkAccess : NetworkAccess)
  | workspaceWrite (writableRoots : List AbsolutePath) (networkAccess : Bool)
      (excludeTmpdirEnvVar excludeSlashTmp : Bool)
  deriving DecidableEq, Repr

/-- `get_writable_roots_with_cwd` of a legacy policy. -/
def SandboxPolicy.getWritableRootsWithCwd (policy : SandboxPolicy) (host : Host)
    (cwd : AbsolutePath) : List WritableRoot :=
  match policy with
  | .workspaceWrite writableRoots _ excludeTmpdirEnvVar excludeSlashTmp =>
    let roots := writableRoots ++ [cwd] ++
      (if !excludeSlashTmp && host.isDir slashTmp then [slashTmp] else []) ++
      (if !excludeTmpdirEnvVar then host.temporaryDirectory.toList else [])
    roots.map fun root =>
      { root := root
        readOnlySubpaths := defaultReadOnlySubpathsForWritableRoot host root (cwd = root)
        protectedMetadataNames := [] }
  | _ => []

inductive LegacyPolicyError where
  | uri (error : PathUri.PathUriParseError)
  | invalidInput (message : Text)
  deriving DecidableEq, Repr

def unsupportedWrites : Text :=
  ("permissions profile requests filesystem writes outside the workspace root, which " ++
    "is not supported until the runtime enforces FileSystemSandboxPolicy directly").toList

/-- What the entries ask for, as far as a legacy policy can express it. -/
structure LegacyRequest where
  workspaceRootWritable : Bool
  writableRoots : List AbsolutePath
  tmpdirWritable : Bool
  slashTmpWritable : Bool
  unbridgeableRootWrite : Bool
  deriving DecidableEq, Repr

namespace FileSystemSandboxPolicy

def unrestricted : FileSystemSandboxPolicy := ⟨.unrestricted, none, []⟩

def externalSandbox : FileSystemSandboxPolicy := ⟨.externalSandbox, none, []⟩

variable (policy : FileSystemSandboxPolicy) (network : NetworkSandboxPolicy) (host : Host)

def requestEntry (cwd : AbsolutePath) (request : LegacyRequest) (entry : FileSystemSandboxEntry) :
    Except LegacyPolicyError LegacyRequest :=
  if !entry.access.canWrite then .ok request
  else
    match entry.path with
    | .globPattern _ => .ok request
    | .path uri =>
      match uri.toAbsPath with
      | none => .error (.uri (.invalidFileUriPath (PathUri.toText uri.host uri.segments)))
      | some path =>
        if path = cwd then .ok { request with workspaceRootWritable := true }
        else .ok { request with writableRoots := request.writableRoots ++ [path] }
    | .special .root => .ok { request with unbridgeableRootWrite := true }
    | .special .minimal => .ok request
    | .special (.projectRoots none) => .ok { request with workspaceRootWritable := true }
    | .special (.projectRoots (some subpath)) =>
      .ok { request with
        writableRoots := request.writableRoots ++
          [AbsolutePath.resolvePathAgainstBase host.homeDir subpath cwd] }
    | .special .tmpdir => .ok { request with tmpdirWritable := true }
    | .special .slashTmp => .ok { request with slashTmpWritable := true }
    | .special (.unknown _ _) => .ok request

def legacyRequest (cwd : AbsolutePath) : Except LegacyPolicyError LegacyRequest :=
  policy.entries.foldlM (requestEntry host cwd) ⟨false, [], false, false, false⟩

def fullAccessPolicy : SandboxPolicy :=
  if network.isEnabled then .dangerFullAccess else .externalSandbox .restricted

/-- The older policy for these permissions, or why there is none. -/
def toLegacySandboxPolicy (cwd : AbsolutePath) : Except LegacyPolicyError SandboxPolicy :=
  match policy.kind with
  | .externalSandbox => .ok (.externalSandbox (if network.isEnabled then .enabled else .restricted))
  | .unrestricted => .ok (fullAccessPolicy network)
  | .restricted =>
    match policy.legacyRequest host cwd with
    | .error error => .error error
    | .ok request =>
      if policy.hasFullDiskWriteAccess then .ok (fullAccessPolicy network)
      else if request.workspaceRootWritable then
        .ok (.workspaceWrite (dedupAbsolutePaths request.writableRoots)
          network.isEnabled (!request.tmpdirWritable) (!request.slashTmpWritable))
      else if request.unbridgeableRootWrite || !request.writableRoots.isEmpty ||
          request.tmpdirWritable || request.slashTmpWritable then
        .error (.invalidInput unsupportedWrites)
      else .ok (.readOnly network.isEnabled)

def appendDefaultReadOnlyEntryIfNoExplicitRule (entries : List FileSystemSandboxEntry)
    (path : FileSystemPath) : List FileSystemSandboxEntry :=
  if entries.any fun entry => fileSystemPathsShareTarget entry.path path then entries
  else entries ++ [.skipMissingPath path .read]

def appendDefaultReadOnlyPathIfNoExplicitRule (entries : List FileSystemSandboxEntry)
    (path : AbsolutePath) : List FileSystemSandboxEntry :=
  appendDefaultReadOnlyEntryIfNoExplicitRule entries (.path (.fromAbsPath path))

def workspaceWriteEntries (writableRoots : List AbsolutePath)
    (excludeTmpdirEnvVar excludeSlashTmp : Bool) : List FileSystemSandboxEntry :=
  [.new (.special .root) .read, .new (.special (.projectRoots none)) .write] ++
    (if !excludeSlashTmp then [.new (.special .slashTmp) .write] else []) ++
    (if !excludeTmpdirEnvVar then [.new (.special .tmpdir) .write] else []) ++
    writableRoots.map fun root => .new (.path (.fromAbsPath root)) .write

def appendDefaultReadOnlySubpaths (protectMissingDotCodex : Bool)
    (entries : List FileSystemSandboxEntry) (root : AbsolutePath) : List FileSystemSandboxEntry :=
  (defaultReadOnlySubpathsForWritableRoot host root protectMissingDotCodex).foldl
    appendDefaultReadOnlyPathIfNoExplicitRule entries

def workspaceWrite (writableRoots : List AbsolutePath)
    (excludeTmpdirEnvVar excludeSlashTmp : Bool) : FileSystemSandboxPolicy :=
  let entries := protectedMetadataPathNames.foldl
    (fun entries name => appendDefaultReadOnlyEntryIfNoExplicitRule entries
      (.special (.projectRoots (some name))))
    (workspaceWriteEntries writableRoots excludeTmpdirEnvVar excludeSlashTmp)
  restricted (writableRoots.foldl (appendDefaultReadOnlySubpaths host false) entries)

/-- The permissions of an older policy. -/
def ofSandboxPolicy : SandboxPolicy → FileSystemSandboxPolicy
  | .dangerFullAccess => unrestricted
  | .externalSandbox _ => externalSandbox
  | .readOnly _ => restricted [.new (.special .root) .read]
  | .workspaceWrite writableRoots _ excludeTmpdirEnvVar excludeSlashTmp =>
    workspaceWrite host writableRoots excludeTmpdirEnvVar excludeSlashTmp

/-- The file system policy that the legacy runtime enforces.  Metadata is protected
only where it exists. -/
def legacyRuntimeFileSystemPolicyForCwd (legacy : SandboxPolicy) (host : Host)
    (cwd : AbsolutePath) : FileSystemSandboxPolicy :=
  match legacy with
  | .workspaceWrite writableRoots _ excludeTmpdirEnvVar excludeSlashTmp =>
    let entries := appendDefaultReadOnlySubpaths host true
      (workspaceWriteEntries writableRoots excludeTmpdirEnvVar excludeSlashTmp) cwd
    restricted (writableRoots.foldl (appendDefaultReadOnlySubpaths host false) entries)
  | legacy => ofSandboxPolicy host legacy

def protectedMetadataNamesNeedDirectRuntimeEnforcement (legacy : SandboxPolicy) (host : Host)
    (cwd : AbsolutePath) : Bool :=
  (policy.getWritableRootsWithCwd host cwd).any fun writable =>
    match (legacy.getWritableRootsWithCwd host cwd).find? (·.root = writable.root) with
    | none => !writable.protectedMetadataNames.isEmpty
    | some legacyRoot =>
      writable.protectedMetadataNames.any fun name =>
        !legacyRoot.readOnlySubpaths.contains (childPath writable.root name)

/-- The older policy would not enforce these permissions. -/
def needsDirectRuntimeEnforcement (cwd : AbsolutePath) : Bool :=
  if policy.kind ≠ .restricted then false
  else
    match policy.toLegacySandboxPolicy network host cwd with
    | .error _ => true
    | .ok legacy =>
      policy.protectedMetadataNamesNeedDirectRuntimeEnforcement legacy host cwd ||
        !policy.isSemanticallyEquivalentTo
          (legacyRuntimeFileSystemPolicyForCwd legacy host cwd) host cwd

/-- Entries of legacy policies stand for one path that has a URI of its own, and
deny nothing. -/
structure IsLegacyEntry (entry : FileSystemSandboxEntry) : Prop where
  path : entry.path ∈ [FileSystemPath.special .root, .special (.projectRoots none),
      .special .slashTmp, .special .tmpdir] ∨
    ∃ path, entry.path = .path (.fromAbsPath path)
  access : entry.access ≠ .deny

variable {entries : List FileSystemSandboxEntry}

theorem isLegacyEntry_appendDefault {path : AbsolutePath}
    (h : ∀ entry ∈ entries, IsLegacyEntry entry) :
    ∀ entry ∈ appendDefaultReadOnlyPathIfNoExplicitRule entries path, IsLegacyEntry entry := by
  unfold appendDefaultReadOnlyPathIfNoExplicitRule appendDefaultReadOnlyEntryIfNoExplicitRule
  split
  · exact h
  · refine forall_mem_append.mpr ⟨h, forall_mem_singleton.mpr ?_⟩
    exact ⟨.inr ⟨path, rfl⟩, by simp [skipMissingPath]⟩

theorem subset_appendDefault (entries : List FileSystemSandboxEntry) (path : AbsolutePath) :
    entries ⊆ appendDefaultReadOnlyPathIfNoExplicitRule entries path := by
  unfold appendDefaultReadOnlyPathIfNoExplicitRule appendDefaultReadOnlyEntryIfNoExplicitRule
  split
  · exact List.Subset.refl _
  · exact subset_append_left _ _

theorem appendDefaultReadOnlySubpaths_spec {host : Host} {protectMissing : Bool}
    {entries : List FileSystemSandboxEntry} {root : AbsolutePath}
    (h : ∀ entry ∈ entries, IsLegacyEntry entry) :
    (∀ entry ∈ appendDefaultReadOnlySubpaths host protectMissing entries root,
        IsLegacyEntry entry) ∧
      entries ⊆ appendDefaultReadOnlySubpaths host protectMissing entries root := by
  unfold appendDefaultReadOnlySubpaths
  induction defaultReadOnlySubpathsForWritableRoot host root protectMissing
      generalizing entries with
  | nil => exact ⟨h, List.Subset.refl _⟩
  | cons path paths ih =>
    obtain ⟨hentries, hsubset⟩ := ih (isLegacyEntry_appendDefault h)
    exact ⟨hentries, List.Subset.trans (subset_appendDefault entries path) hsubset⟩

theorem appendDefaults_spec {host : Host}
    (roots : List AbsolutePath) (h : ∀ entry ∈ entries, IsLegacyEntry entry) :
    (∀ entry ∈ roots.foldl (appendDefaultReadOnlySubpaths host false) entries,
        IsLegacyEntry entry) ∧
      entries ⊆ roots.foldl (appendDefaultReadOnlySubpaths host false) entries := by
  induction roots generalizing entries with
  | nil => exact ⟨h, List.Subset.refl _⟩
  | cons root roots ih =>
    obtain ⟨hstep, hkept⟩ := @appendDefaultReadOnlySubpaths_spec host false entries root h
    obtain ⟨hentries, hsubset⟩ := ih hstep
    exact ⟨hentries, List.Subset.trans hkept hsubset⟩

theorem isLegacyEntry_workspaceWriteEntries {roots : List AbsolutePath}
    {excludeTmpdir excludeSlashTmp : Bool} :
    ∀ entry ∈ workspaceWriteEntries roots excludeTmpdir excludeSlashTmp, IsLegacyEntry entry := by
  intro entry hentry
  simp only [workspaceWriteEntries, mem_append, mem_cons, not_mem_nil, or_false, mem_map] at hentry
  rcases hentry with (((rfl | rfl) | hslashTmp) | htmpdir) | ⟨root, -, rfl⟩
  · exact ⟨.inl (by simp [new]), by simp [new]⟩
  · exact ⟨.inl (by simp [new]), by simp [new]⟩
  · split at hslashTmp
    · obtain rfl := mem_singleton.mp hslashTmp
      exact ⟨.inl (by simp [new]), by simp [new]⟩
    · cases hslashTmp
  · split at htmpdir
    · obtain rfl := mem_singleton.mp htmpdir
      exact ⟨.inl (by simp [new]), by simp [new]⟩
    · cases htmpdir
  · exact ⟨.inr ⟨root, rfl⟩, by simp [new]⟩

variable {legacy : SandboxPolicy}

theorem isLegacyEntry_of_mem_runtime {host : Host} {cwd : AbsolutePath} :
    ∀ entry ∈ (legacyRuntimeFileSystemPolicyForCwd legacy host cwd).entries,
      IsLegacyEntry entry := by
  cases legacy with
  | dangerFullAccess | externalSandbox => exact fun entry hentry => absurd hentry not_mem_nil
  | readOnly access =>
    intro entry hentry
    obtain rfl := mem_singleton.mp hentry
    exact ⟨.inl (by simp [new]), by simp [new]⟩
  | workspaceWrite roots access excludeTmpdir excludeSlashTmp =>
    exact (appendDefaults_spec roots (appendDefaultReadOnlySubpaths_spec
      isLegacyEntry_workspaceWriteEntries).1).1

theorem root_mem_runtime {host : Host} {cwd : AbsolutePath}
    (h : (legacyRuntimeFileSystemPolicyForCwd legacy host cwd).kind = .restricted) :
    .new (.special .root) .read ∈
      (legacyRuntimeFileSystemPolicyForCwd legacy host cwd).entries := by
  cases legacy with
  | dangerFullAccess | externalSandbox => cases h
  | readOnly access => exact mem_singleton_self _
  | workspaceWrite roots access excludeTmpdir excludeSlashTmp =>
    have hstart := @appendDefaultReadOnlySubpaths_spec host true _ cwd
      (@isLegacyEntry_workspaceWriteEntries roots excludeTmpdir excludeSlashTmp)
    refine (appendDefaults_spec roots hstart.1).2 (hstart.2 ?_)
    simp [workspaceWriteEntries]

variable {policy : FileSystemSandboxPolicy} {network : NetworkSandboxPolicy}

section Runtime

variable {host : Host} {cwd : AbsolutePath}

theorem subpathsReadAlike_runtime :
    (legacyRuntimeFileSystemPolicyForCwd legacy host cwd).SubpathsReadAlike host cwd := by
  intro entry hentry subpath hpath
  rcases (isLegacyEntry_of_mem_runtime entry hentry).path with hspecial | ⟨path, huri⟩
  · rw [hpath] at hspecial
    simp at hspecial
  · rw [hpath] at huri
    cases huri

theorem isAmbiguous_fromAbsPath (path : AbsolutePath) :
    isAmbiguous (.fromAbsPath path) = false := by
  unfold isAmbiguous
  by_cases hordinary : path.IsOrdinary
  · simp [(PathUri.fromAbsPath_of_ordinary hordinary).1.lexicalDepth_eq]
  · simp [PathUri.isOpaque_fromAbsPath hordinary]

theorem isComparable_runtime (hcwd : cwd.IsOrdinary) :
    (legacyRuntimeFileSystemPolicyForCwd legacy host cwd).IsComparable (localContext host cwd) := by
  have hplain := (PathUri.fromAbsPath_of_ordinary hcwd).1
  intro resolved hresolved
  obtain ⟨entry, hentry, hmem⟩ := mem_flatMap.mp hresolved
  obtain ⟨uri, huri, rfl⟩ := mem_map.mp hmem
  have huri := (mem_filter.mp huri).1
  rcases (isLegacyEntry_of_mem_runtime entry hentry).path with hspecial | ⟨path, hpath⟩
  · simp only [mem_cons, not_mem_nil, or_false] at hspecial
    rcases hspecial with hpath | hpath | hpath | hpath <;> rw [hpath] at huri
    · simp only [FileSystemPath.resolve, FileSystemSandboxPolicyContext.fileSystemRoot,
        localContext, hplain.lexicalDepth_eq, Option.toList_some, mem_singleton] at huri
      subst huri
      simp [isAmbiguous, hplain.rootAncestor_spec.1.lexicalDepth_eq]
    · have huri : uri = .fromAbsPath cwd := by
        simpa [FileSystemPath.resolve, localContext, projectRootPath] using huri
      rw [huri]
      exact isAmbiguous_fromAbsPath cwd
    · simp only [FileSystemPath.resolve, localContext, hplain.posix] at huri
      obtain rfl := mem_singleton.mp huri
      exact isAmbiguous_fromAbsPath slashTmp
    · obtain ⟨path, -, rfl⟩ := Option.map_eq_some_iff.mp (Option.mem_toList.mp huri)
      exact isAmbiguous_fromAbsPath path
  · rw [hpath] at huri
    obtain rfl := mem_singleton.mp huri
    exact isAmbiguous_fromAbsPath path

theorem hasFullDiskReadAccess_runtime :
    (legacyRuntimeFileSystemPolicyForCwd legacy host cwd).hasFullDiskReadAccess := by
  unfold hasFullDiskReadAccess
  split
  · rfl
  · rfl
  next hkind =>
    rw [Bool.and_eq_true, Bool.not_eq_true']
    constructor
    · simp only [hasRootAccess, hkind, decide_true, Bool.true_and, any_eq_true, Bool.and_eq_true]
      exact ⟨_, root_mem_runtime hkind, rfl, rfl⟩
    · simp only [hasDeniedReadRestrictions, hkind, decide_true, Bool.true_and,
        any_eq_false, decide_eq_true_eq]
      exact fun entry hentry => (isLegacyEntry_of_mem_runtime entry hentry).access

theorem runtime_restricted_iff (hkind : policy.kind = .restricted)
    (hlegacy : policy.toLegacySandboxPolicy network host cwd = .ok legacy) :
    (legacyRuntimeFileSystemPolicyForCwd legacy host cwd).kind = .restricted ↔
      policy.hasFullDiskWriteAccess = false := by
  unfold toLegacySandboxPolicy at hlegacy
  simp only [hkind] at hlegacy
  cases hrequest : policy.legacyRequest host cwd with
  | error error =>
    rw [hrequest] at hlegacy
    cases hlegacy
  | ok request =>
    simp only [hrequest] at hlegacy
    split at hlegacy
    next hdisk =>
      cases hlegacy
      rw [hdisk]
      cases network with
      | restricted => exact iff_of_false (by simp [fullAccessPolicy, NetworkSandboxPolicy.isEnabled,
          legacyRuntimeFileSystemPolicyForCwd, ofSandboxPolicy, externalSandbox]) (by simp)
      | enabled => exact iff_of_false (by simp [fullAccessPolicy, NetworkSandboxPolicy.isEnabled,
          legacyRuntimeFileSystemPolicyForCwd, ofSandboxPolicy, unrestricted]) (by simp)
    next hdisk =>
      refine iff_of_true ?_ (Bool.eq_false_iff.mpr hdisk)
      split at hlegacy
      · cases hlegacy
        rfl
      · split at hlegacy
        · cases hlegacy
        · cases hlegacy
          rfl

end Runtime

/-- What the choice of the legacy runtime does not check. -/
structure LegacySuffices (policy : FileSystemSandboxPolicy) (legacy : SandboxPolicy)
    (host : Host) (cwd : AbsolutePath) : Prop where
  disk : policy.hasFullDiskWriteAccess = false
  comparable : cwd.IsOrdinary → policy.IsComparable (localContext host cwd)
  pointers : cwd.IsOrdinary →
    policy.PointersUnlisted (legacyRuntimeFileSystemPolicyForCwd legacy host cwd) host cwd ∧
      (legacyRuntimeFileSystemPolicyForCwd legacy host cwd).PointersUnlisted policy host cwd

section Use

variable {host : Host} {cwd : AbsolutePath}

/-- Where the older policy is said to do, it has the same signature. -/
theorem equivalent_of_not_needsDirectRuntimeEnforcement (hkind : policy.kind = .restricted)
    (h : policy.needsDirectRuntimeEnforcement network host cwd = false) :
    ∃ legacy, policy.toLegacySandboxPolicy network host cwd = .ok legacy ∧
      policy.isSemanticallyEquivalentTo
        (legacyRuntimeFileSystemPolicyForCwd legacy host cwd) host cwd := by
  unfold needsDirectRuntimeEnforcement at h
  rw [if_neg (not_not.mpr hkind)] at h
  cases hlegacy : policy.toLegacySandboxPolicy network host cwd with
  | error error =>
    rw [hlegacy] at h
    cases h
  | ok legacy =>
    simp only [hlegacy, Bool.or_eq_false_iff, Bool.not_eq_false'] at h
    exact ⟨legacy, rfl, h.2⟩

theorem not_needsDirectRuntimeEnforcement (hkind : policy.kind = .restricted)
    (hlegacy : policy.toLegacySandboxPolicy network host cwd = .ok legacy)
    (hnames : policy.protectedMetadataNamesNeedDirectRuntimeEnforcement legacy host cwd = false)
    (heq : policy.isSemanticallyEquivalentTo
      (legacyRuntimeFileSystemPolicyForCwd legacy host cwd) host cwd) :
    policy.needsDirectRuntimeEnforcement network host cwd = false := by
  unfold needsDirectRuntimeEnforcement
  rw [if_neg (not_not.mpr hkind), hlegacy]
  simp only [hnames, heq, Bool.not_true, Bool.or_self]

/-- For the older policy, that the signature tells all decisions comes down to
`LegacySuffices`. -/
theorem signatureSuffices_runtime_iff (hkind : policy.kind = .restricted)
    (hlegacy : policy.toLegacySandboxPolicy network host cwd = .ok legacy)
    (hsame : policy.SameProjection (legacyRuntimeFileSystemPolicyForCwd legacy host cwd) host cwd) :
    policy.SignatureSuffices (legacyRuntimeFileSystemPolicyForCwd legacy host cwd) host cwd ↔
      policy.LegacySuffices legacy host cwd := by
  have hread : policy.hasFullDiskReadAccess := hsame.fullRead.trans hasFullDiskReadAccess_runtime
  have hdisk := runtime_restricted_iff hkind hlegacy
  constructor
  · intro h
    have hnone := hdisk.mp (h.kinds.mp hkind)
    have hcomparable : cwd.IsOrdinary → policy.IsComparable (localContext host cwd) :=
      fun hcwd => (h.comparable hkind hcwd (.inl hread)).mpr (isComparable_runtime hcwd)
    exact ⟨hnone, hcomparable, fun hcwd => h.pointers hkind ⟨hcwd, hcomparable hcwd⟩
      ⟨hcwd, isComparable_runtime hcwd⟩ hnone⟩
  · intro h
    exact ⟨iff_of_true hkind (hdisk.mpr h.disk),
      fun _ hcwd _ => iff_of_true (h.comparable hcwd) (isComparable_runtime hcwd),
      fun _ hactive _ _ => h.pointers hactive.ordinary⟩

/-- Policies with equal signatures decide alike exactly if the signature suffices, and
the legacy runtime decides like the policy that it is used for exactly if this holds
of its own policy. -/
theorem equivalent_decide_alike_iff (hlinks : host.IsLinkFree)
    (halike : policy.SubpathsReadAlike host cwd) :
    (∀ other : FileSystemSandboxPolicy, other.SubpathsReadAlike host cwd →
        policy.isSemanticallyEquivalentTo other host cwd = true →
        (policy.SameDecisions other host cwd ↔ policy.SignatureSuffices other host cwd)) ∧
      ∀ network, policy.kind = .restricted →
        policy.needsDirectRuntimeEnforcement network host cwd = false →
        ∃ legacy, policy.toLegacySandboxPolicy network host cwd = .ok legacy ∧
          (policy.SameDecisions (legacyRuntimeFileSystemPolicyForCwd legacy host cwd) host cwd ↔
            policy.LegacySuffices legacy host cwd) := by
  refine ⟨fun other => sameDecisions_iff_of_equivalent hlinks halike, ?_⟩
  intro network hkind h
  obtain ⟨legacy, hlegacy, heq⟩ := equivalent_of_not_needsDirectRuntimeEnforcement hkind h
  refine ⟨legacy, hlegacy, ?_⟩
  rw [sameDecisions_iff_of_equivalent hlinks halike subpathsReadAlike_runtime heq]
  exact signatureSuffices_runtime_iff hkind hlegacy (sameProjection_of_equivalent heq)

end Use

def writeWorkspace : FileSystemSandboxPolicy :=
  restricted [.new (.special .root) .read, .new (.special (.projectRoots none)) .write]

def worktree : AbsolutePath := ⟨[utf8Bytes "a".toList], by decide⟩

def worktreeGitdir : AbsolutePath := ⟨[utf8Bytes "a".toList, utf8Bytes "g".toList], by decide⟩

/-- A host with a workspace `/a` in which `/a/.git` is a file that points to
`/a/g`. -/
def worktreeHost : Host where
  homeDir := none
  temporaryDirectory := none
  isDir path := path = slashTmp || path = childPath worktree ".agents".toList ||
    path = childPath worktree ".rexux".toList
  isFile path := path = childPath worktree ".git".toList
  gitdir path := if path = childPath worktree ".git".toList then some worktreeGitdir else none
  normalizeEffective path := path
  normalizeTrustedTopLevelAlias path := path

def workspaceOnly : SandboxPolicy := .workspaceWrite [] false true true

/-- The workspace with its metadata listed, the target of the `.git` file included. -/
def shieldedWorkspace : FileSystemSandboxPolicy :=
  restricted
    [.new (.special .root) .read, .new (.special (.projectRoots none)) .write,
      .new (.path (.fromAbsPath worktreeGitdir)) .read,
      .new (.path (.fromAbsPath (childPath worktree ".git".toList))) .read,
      .new (.path (.fromAbsPath (childPath worktree ".agents".toList))) .read,
      .new (.path (.fromAbsPath (childPath worktree ".rexux".toList))) .read]

theorem gitdirTarget_worktreeHost {root target : AbsolutePath}
    (htarget : gitdirTarget worktreeHost root = some target) :
    root = worktree ∧ target = worktreeGitdir := by
  unfold gitdirTarget at htarget
  split at htarget
  next hfile =>
    have hchild : childPath root ".git".toList = childPath worktree ".git".toList :=
      of_decide_eq_true hfile
    rw [hchild] at htarget
    refine ⟨?_, (Option.some.inj htarget).symm⟩
    have hcomponents := congrArg AbsolutePath.components hchild
    rw [components_childPath _ (by decide), components_childPath _ (by decide)] at hcomponents
    exact AbsolutePath.ext (append_cancel_right hcomponents)
  next => cases htarget

/-- A target that is listed is not decided by the root above it. -/
theorem pointersUnlisted_worktreeHost {policy other : FileSystemSandboxPolicy}
    (hlisted : (worktreeGitdir.components, .read) ∈ policy.hostRules worktreeHost worktree) :
    policy.PointersUnlisted other worktreeHost worktree := by
  intro root target htarget _ _ hdecides
  obtain ⟨rfl, rfl⟩ := gitdirTarget_worktreeHost htarget
  exact absurd (hdecides.deepest _ hlisted prefix_rfl) (by decide)

/-- A workspace with a `.git` file that points elsewhere. -/
theorem legacySuffices_shieldedWorkspace :
    shieldedWorkspace.needsDirectRuntimeEnforcement .restricted worktreeHost worktree = false ∧
      shieldedWorkspace.SameDecisions
        (legacyRuntimeFileSystemPolicyForCwd workspaceOnly worktreeHost worktree)
        worktreeHost worktree := by
  have halike : shieldedWorkspace.SubpathsReadAlike worktreeHost worktree := by
    intro entry hentry subpath hpath
    simp only [shieldedWorkspace, restricted, mem_cons, not_mem_nil, or_false] at hentry
    rcases hentry with rfl | rfl | rfl | rfl | rfl | rfl <;> cases hpath
  have hlegacy : shieldedWorkspace.toLegacySandboxPolicy .restricted worktreeHost worktree =
      .ok workspaceOnly := by
    decide +kernel
  have hdirect : shieldedWorkspace.needsDirectRuntimeEnforcement .restricted worktreeHost
      worktree = false := by
    apply not_needsDirectRuntimeEnforcement rfl hlegacy (by decide +kernel)
    exact decide_eq_true rfl
  obtain ⟨legacy, hprojected, hiff⟩ := (equivalent_decide_alike_iff
    ⟨fun path => rfl, by decide +kernel⟩ halike).2 .restricted rfl hdirect
  obtain rfl : workspaceOnly = legacy := Except.ok.inj (hlegacy.symm.trans hprojected)
  refine ⟨hdirect, hiff.mpr ⟨by decide +kernel, fun _ => ?_, fun _ => ⟨?_, ?_⟩⟩⟩
  · unfold IsComparable
    decide +kernel
  · exact pointersUnlisted_worktreeHost (by decide +kernel)
  · exact pointersUnlisted_worktreeHost (by decide +kernel)

theorem writeWorkspace_equivalent_to_runtime :
    writeWorkspace.isSemanticallyEquivalentTo
      (legacyRuntimeFileSystemPolicyForCwd workspaceOnly worktreeHost worktree)
      worktreeHost worktree := by
  exact decide_eq_true rfl

/-- The legacy runtime is used although it refuses to write the target of the
`.git` file. -/
theorem legacy_runtime_refuses_gitdir :
    writeWorkspace.kind = .restricted ∧ worktreeHost.IsLinkFree ∧
      writeWorkspace.entries.all (fun entry => !entry.isGlob) = true ∧
      writeWorkspace.needsDirectRuntimeEnforcement .restricted worktreeHost worktree = false ∧
      writeWorkspace.toLegacySandboxPolicy .restricted worktreeHost worktree = .ok workspaceOnly ∧
      writeWorkspace.isSemanticallyEquivalentTo
        (legacyRuntimeFileSystemPolicyForCwd workspaceOnly worktreeHost worktree)
        worktreeHost worktree = true ∧
      (legacyRuntimeFileSystemPolicyForCwd workspaceOnly worktreeHost worktree).entries.all
        (fun entry => !entry.isGlob) = true ∧
      writeWorkspace.canWritePathWithCwd worktreeHost worktreeGitdir worktree = true ∧
      (legacyRuntimeFileSystemPolicyForCwd workspaceOnly worktreeHost
        worktree).canWritePathWithCwd worktreeHost worktreeGitdir worktree = false := by
  have hlegacy : writeWorkspace.toLegacySandboxPolicy .restricted worktreeHost worktree =
      .ok workspaceOnly := by
    decide +kernel
  refine ⟨rfl, ⟨fun path => rfl, by decide +kernel⟩, by decide, ?_, hlegacy,
    writeWorkspace_equivalent_to_runtime, by decide +kernel, by decide +kernel,
    by decide +kernel⟩
  exact not_needsDirectRuntimeEnforcement rfl hlegacy (by decide +kernel)
    writeWorkspace_equivalent_to_runtime

end FileSystemSandboxPolicy

end Rexux.Permissions
