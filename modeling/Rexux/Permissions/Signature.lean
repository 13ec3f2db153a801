import Rexux.Permissions.FullAccess
import Rexux.Permissions.ProjectedRoots

/-!
# Semantic signatures

Two policies are taken for equivalent if their signatures are equal.  A signature
holds the roots that the policy projects to: readable, writable and unreadable
roots, each filtered by the decisions, and two flags for full access.

Most of a policy can be read off its signature, because the place of every entry
that matters is listed.  Full access is where it is not: the flags are computed
from the text of the entries, they do not see that a restricted policy may deny
some paths or all of them, and with full read access the readable roots are left
out, so that a read-only entry can hide behind a carve-out that a `.git` file
causes anyway.
-/

namespace Rexux.Permissions

open Foundation Rexux.Path List AbsolutePath FileSystemAccessMode PathUri

/-! ## Sorting -/

def bytesLe : Bytes → Bytes → Bool
  | [], _ => true
  | _ :: _, [] => false
  | byte :: rest, other :: others =>
    byte.toNat < other.toNat || (byte = other && bytesLe rest others)

def componentsLe : List Bytes → List Bytes → Bool
  | [], _ => true
  | _ :: _, [] => false
  | component :: rest, other :: others =>
    if component = other then componentsLe rest others else bytesLe component other

def sortedAbsolutePaths (paths : List AbsolutePath) : List AbsolutePath :=
  paths.mergeSort fun path other => componentsLe path.components other.components

def sortedTexts (texts : List Text) : List Text :=
  texts.mergeSort fun text other => bytesLe (utf8Bytes text) (utf8Bytes other)

/-- `dedup` removes repetitions of neighbours. -/
def dedupNeighbours : List Text → List Text
  | [] => []
  | [text] => [text]
  | text :: other :: rest =>
    if text = other then dedupNeighbours (other :: rest)
    else text :: dedupNeighbours (other :: rest)

def sortedWritableRoot (writable : WritableRoot) : WritableRoot where
  root := writable.root
  readOnlySubpaths := sortedAbsolutePaths writable.readOnlySubpaths
  protectedMetadataNames := dedupNeighbours (sortedTexts writable.protectedMetadataNames)

def sortedWritableRoots (roots : List WritableRoot) : List WritableRoot :=
  (roots.map sortedWritableRoot).mergeSort fun writable other =>
    componentsLe writable.root.components other.root.components

theorem mem_sortedAbsolutePaths {paths : List AbsolutePath} {path : AbsolutePath} :
    path ∈ sortedAbsolutePaths paths ↔ path ∈ paths :=
  (mergeSort_perm _ _).mem_iff

theorem mem_dedupNeighbours {texts : List Text} {text : Text} :
    text ∈ dedupNeighbours texts ↔ text ∈ texts := by
  induction texts using dedupNeighbours.induct with
  | case1 | case2 => rfl
  | case3 first rest ih =>
    rw [dedupNeighbours, if_pos rfl, ih]
    simp
  | case4 first other rest hne ih =>
    rw [dedupNeighbours, if_neg hne]
    simp only [mem_cons, ih]

theorem same_of_sortedWritableRoot_eq {writable other : WritableRoot}
    (h : sortedWritableRoot writable = sortedWritableRoot other) : writable.Same other := by
  have hsubpaths : sortedAbsolutePaths writable.readOnlySubpaths =
      sortedAbsolutePaths other.readOnlySubpaths := congrArg WritableRoot.readOnlySubpaths h
  have hnames : dedupNeighbours (sortedTexts writable.protectedMetadataNames) =
      dedupNeighbours (sortedTexts other.protectedMetadataNames) :=
    congrArg WritableRoot.protectedMetadataNames h
  have hroot : (sortedWritableRoot writable).root = (sortedWritableRoot other).root := by
    rw [h]
  have hmem : ∀ names : List Text, ∀ name,
      name ∈ dedupNeighbours (sortedTexts names) ↔ name ∈ names := fun names name =>
    mem_dedupNeighbours.trans (mergeSort_perm _ _).mem_iff
  refine ⟨hroot, fun path => ?_, fun name => ?_⟩
  · rw [← mem_sortedAbsolutePaths, hsubpaths, mem_sortedAbsolutePaths]
  · rw [← hmem, hnames, hmem]

theorem sameRoots_of_sorted_eq {roots others : List WritableRoot}
    (h : sortedWritableRoots roots = sortedWritableRoots others) : SameRoots roots others := by
  have hmem : ∀ list : List WritableRoot, ∀ writable,
      writable ∈ sortedWritableRoots list ↔ ∃ root ∈ list, sortedWritableRoot root = writable :=
    fun list writable => (mergeSort_perm _ _).mem_iff.trans mem_map
  constructor
  · intro root hroot
    obtain ⟨other, hother, hsorted⟩ :=
      (hmem others _).mp (h ▸ (hmem roots _).mpr ⟨root, hroot, rfl⟩)
    exact ⟨other, hother, same_of_sortedWritableRoot_eq hsorted.symm⟩
  · intro other hother
    obtain ⟨root, hroot, hsorted⟩ :=
      (hmem roots _).mp (h ▸ (hmem others _).mpr ⟨other, hother, rfl⟩)
    exact ⟨root, hroot, same_of_sortedWritableRoot_eq hsorted⟩

/-! ## Signatures -/

structure FileSystemSemanticSignature where
  hasFullDiskReadAccess : Bool
  hasFullDiskWriteAccess : Bool
  includePlatformDefaults : Bool
  readableRoots : List AbsolutePath
  writableRoots : List WritableRoot
  unreadableRoots : List AbsolutePath
  unreadableGlobs : List Text
  deriving DecidableEq, Repr

open FileSystemSemanticSignature

namespace FileSystemSandboxPolicy

variable (policy : FileSystemSandboxPolicy)

def includePlatformDefaults : Bool :=
  !policy.hasFullDiskReadAccess && policy.kind = .restricted &&
    policy.entries.any fun entry => entry.path = .special .minimal && entry.access.canRead

def getReadableRootsWithCwd (host : Host) (cwd : AbsolutePath) : List AbsolutePath :=
  if policy.hasFullDiskReadAccess then []
  else
    dedupAbsolutePaths
      (((policy.resolvedEntriesWithCwd host cwd).filter fun entry =>
        entry.2.canRead && policy.canReadPathWithCwd host entry.1 cwd).map
          fun entry => host.normalizeEffective entry.1)

/-- The root itself is left out: what is not granted is denied anyway. -/
def getUnreadableRootsWithCwd (host : Host) (cwd : AbsolutePath) : List AbsolutePath :=
  if policy.kind ≠ .restricted then []
  else
    dedupAbsolutePaths
      (((policy.resolvedEntriesWithCwd host cwd).filter fun entry =>
        entry.2 = .deny && !policy.canReadPathWithCwd host entry.1 cwd &&
          entry.1 != .root).map fun entry => host.normalizeEffective entry.1)

def getUnreadableGlobsWithCwd (host : Host) (cwd : AbsolutePath) : List Text :=
  if policy.kind ≠ .restricted then []
  else
    dedupNeighbours (sortedTexts ((policy.entries.filter (·.access = .deny)).filterMap
      fun entry =>
        match entry.path with
        | .globPattern pattern =>
          some (fromUtf8Lossy (resolvePathAgainstBase host.homeDir pattern cwd).toBytes)
        | _ => none))

def semanticSignature (host : Host) (cwd : AbsolutePath) : FileSystemSemanticSignature where
  hasFullDiskReadAccess := policy.hasFullDiskReadAccess
  hasFullDiskWriteAccess := policy.hasFullDiskWriteAccess
  includePlatformDefaults := policy.includePlatformDefaults
  readableRoots := sortedAbsolutePaths (policy.getReadableRootsWithCwd host cwd)
  writableRoots := sortedWritableRoots (policy.getWritableRootsWithCwd host cwd)
  unreadableRoots := sortedAbsolutePaths (policy.getUnreadableRootsWithCwd host cwd)
  unreadableGlobs := policy.getUnreadableGlobsWithCwd host cwd

def isSemanticallyEquivalentTo (policy other : FileSystemSandboxPolicy) (host : Host)
    (cwd : AbsolutePath) : Bool :=
  policy.semanticSignature host cwd = other.semanticSignature host cwd

section Decisions

variable {policy : FileSystemSandboxPolicy} {host : Host} {cwd path : AbsolutePath}

variable (policy host cwd) in
/-- The rules decide, if the working directory is ordinary and the policy is
comparable. -/
structure IsActive : Prop where
  ordinary : cwd.IsOrdinary
  comparable : policy.IsComparable (localContext host cwd)

theorem resolveAccess_eq_iff {mode : FileSystemAccessMode} (hkind : policy.kind = .restricted)
    (htmp : host.isDir slashTmp) (halike : policy.SubpathsReadAlike host cwd)
    (hmode : mode ≠ .deny) :
    policy.resolveAccess (.fromAbsPath path) (localContext host cwd) = mode ↔
      policy.IsActive host cwd ∧ path.IsOrdinary ∧
        ∃ root, Decides (policy.hostRules host cwd) path.components root mode := by
  have hposix : (localContext host cwd).HasPosixCwd := inferPathConvention_fromAbsPath cwd
  have hrules : policy.IsActive host cwd → path.IsOrdinary → ∀ root,
      (Decides (policy.rules (localContext host cwd)) (fromAbsPath path).components root mode ↔
        Decides (policy.hostRules host cwd) path.components root mode) := by
    intro hactive hpath root
    rw [(fromAbsPath_of_ordinary hpath).2, ← filter_rules_eq hactive.ordinary htmp
      halike hactive.comparable,
      decides_filter_iff (isOrdinaryRule_of_isPrefix hpath)]
  constructor
  · intro h
    obtain ⟨root, hgrants⟩ := exists_grants hkind hposix (h ▸ hmode)
    have hactive : policy.IsActive host cwd :=
      ⟨(isPlain_fromAbsPath_iff cwd).mp hgrants.plainCwd, hgrants.comparable⟩
    have hpath := (isPlain_fromAbsPath_iff path).mp hgrants.plainPath
    exact ⟨hactive, hpath, root, (hrules hactive hpath root).mp (h ▸ hgrants.decides)⟩
  · rintro ⟨hactive, hpath, root, hdecides⟩
    exact resolveAccess_of_decides hkind ((isPlain_fromAbsPath_iff cwd).mpr hactive.ordinary)
      ((isPlain_fromAbsPath_iff path).mpr hpath) hactive.comparable
      ((hrules hactive hpath root).mpr hdecides)

def ReadableAt (rules : List (List Bytes × FileSystemAccessMode)) (path : List Bytes) : Prop :=
  ∃ root mode, mode ≠ .deny ∧ Decides rules path root mode

/-- A path can be read exactly if the rules of the host say so. -/
theorem canReadPathWithCwd_iff (hkind : policy.kind = .restricted)
    (htmp : host.isDir slashTmp) (halike : policy.SubpathsReadAlike host cwd) :
    policy.canReadPathWithCwd host path cwd ↔
      policy.IsActive host cwd ∧ path.IsOrdinary ∧
        ReadableAt (policy.hostRules host cwd) path.components := by
  rw [canReadPathWithCwd, canRead_iff]
  constructor
  · intro hmode
    obtain ⟨hactive, hpath, root, hdecides⟩ := (resolveAccess_eq_iff hkind htmp halike hmode).mp rfl
    exact ⟨hactive, hpath, root, _, hmode, hdecides⟩
  · rintro ⟨hactive, hpath, root, mode, hmode, hdecides⟩
    rwa [(resolveAccess_eq_iff hkind htmp halike hmode).mpr ⟨hactive, hpath, root, hdecides⟩]

theorem canWritePathWithCwd_iff_of_full (hkind : policy.kind = .restricted)
    (hdisk : policy.hasFullDiskWriteAccess) (htmp : host.isDir slashTmp)
    (halike : policy.SubpathsReadAlike host cwd) :
    policy.canWritePathWithCwd host path cwd ↔
      policy.IsActive host cwd ∧ path.IsOrdinary ∧
        ∃ root, Decides (policy.hostRules host cwd) path.components root .write := by
  rw [← resolveAccess_eq_iff hkind htmp halike (by decide), canWritePathWithCwd,
    canWritePath_iff_write]
  exact and_iff_left (.inl hdisk)

theorem canRead_of_canWrite (h : policy.canWritePathWithCwd host path cwd) :
    policy.canReadPathWithCwd host path cwd := by
  rw [canReadPathWithCwd, (policy.canWritePath_iff_write.mp h).1]
  rfl

/-! ## Full access -/

theorem mem_resolvedEntriesWithCwd {entry : AbsolutePath × FileSystemAccessMode} :
    entry ∈ policy.resolvedEntriesWithCwd host cwd ↔
      ∃ e ∈ policy.entries, resolveEntryPath e.path host cwd = some entry.1 ∧
        e.access = entry.2 := by
  simp only [resolvedEntriesWithCwd, mem_filterMap, Option.map_eq_some_iff]
  constructor
  · rintro ⟨e, he, path, hpath, rfl⟩
    exact ⟨e, he, hpath, rfl⟩
  · rintro ⟨e, he, hpath, haccess⟩
    exact ⟨e, he, entry.1, hpath, by rw [haccess]⟩

theorem isOrdinary_root : AbsolutePath.root.IsOrdinary :=
  ⟨fun _ hcomponent => absurd hcomponent not_mem_nil, rfl⟩

/-- The path is resolved to an ordinary path of the host with these components. -/
def LocatedOnHost (host : Host) (cwd : AbsolutePath) (path : FileSystemPath)
    (place : List Bytes) : Prop :=
  ∃ resolved : AbsolutePath, resolveEntryPath path host cwd = some resolved ∧
    resolved.IsOrdinary ∧ resolved.components = place

theorem places_hostRules : Places policy (LocatedOnHost host cwd) (policy.hostRules host cwd) where
  mem_iff rule := by
    rw [mem_hostRules]
    constructor
    · rintro ⟨path, hmem, hordinary, hcomponents⟩
      obtain ⟨entry, hentry, hresolve, haccess⟩ := mem_resolvedEntriesWithCwd.mp hmem
      exact ⟨entry, hentry, ⟨path, hresolve, hordinary, hcomponents⟩, haccess⟩
    · rintro ⟨entry, hentry, ⟨path, hresolve, hordinary, hcomponents⟩, haccess⟩
      exact ⟨path, mem_resolvedEntriesWithCwd.mpr ⟨entry, hentry, hresolve, haccess⟩,
        hordinary, hcomponents⟩
  root place := by
    constructor
    · rintro ⟨path, hresolve, -, rfl⟩
      rw [← Option.some.inj hresolve]
      rfl
    · rintro rfl
      exact ⟨.root, rfl, isOrdinary_root, rfl⟩
  glob _ _ := by simp [LocatedOnHost, resolveEntryPath]
  minimal _ := by simp [LocatedOnHost, resolveEntryPath]
  unknown _ _ _ := by simp [LocatedOnHost, resolveEntryPath]

theorem readableAt_of_full (hkind : policy.kind = .restricted)
    (hfull : policy.hasFullDiskReadAccess)
    (path : List Bytes) : ReadableAt (policy.hostRules host cwd) path :=
  places_hostRules.exists_decides_of_fullRead hkind hfull path

theorem resolveEntryPath_of_shareTarget {left right : FileSystemPath}
    (htmp : host.isDir slashTmp) (hshare : fileSystemPathsShareTarget left right)
    (hright : resolveEntryPath right host cwd = some path) :
    resolveEntryPath left host cwd = some path := by
  have hmatches : ∀ {value : FileSystemSpecialPath} {other : AbsolutePath},
      specialPathMatchesAbsolutePath value other →
        resolveEntryPath (.special value) host cwd = some other := by
    intro value other hmatch
    rcases specialPathMatches_cases hmatch with ⟨rfl, rfl⟩ | ⟨rfl, rfl⟩
    · rfl
    · simp [resolveEntryPath, htmp]
  cases right with
  | globPattern => cases hright
  | path other =>
    cases left with
    | globPattern => cases hshare
    | path uri =>
      have hposix : other.inferPathConvention = some .posix := by
        by_contra hnot
        simp [resolveEntryPath, toAbsPath, hnot] at hright
      rw [fileSystemPathsShareTarget, sameUri_comm, sameUri_iff_of_posix hposix] at hshare
      rwa [hshare] at hright
    | special value =>
      have hother : other.toAbsPath = some path := hright
      rw [fileSystemPathsShareTarget, hother] at hshare
      exact hmatches hshare
  | special value =>
    cases left with
    | globPattern => cases hshare
    | special other =>
      obtain rfl : other = value := by simpa [fileSystemPathsShareTarget] using hshare
      exact hright
    | path uri =>
      obtain ⟨other, hother, hmatch⟩ := (Option.any_eq_true ..).mp hshare
      rw [hmatches hmatch] at hright
      exact hother.trans hright

theorem decides_write_of_full (hkind : policy.kind = .restricted)
    (htmp : host.isDir slashTmp) (hfull : policy.hasFullDiskWriteAccess)
    (path : List Bytes) : ∃ root, Decides (policy.hostRules host cwd) path root .write := by
  refine places_hostRules.exists_decides_of_fullWrite hkind hfull ?_ path
  intro entry hentry hany place hplace
  obtain ⟨resolved, hresolve, hordinary, hcomponents⟩ := hplace
  obtain ⟨candidate, hcandidate, hwrite, -, hshare⟩ := hasSameTargetWriteOverride_iff.mp hany
  exact (places_hostRules.mem_iff _).mpr ⟨candidate, hcandidate,
    ⟨resolved, resolveEntryPath_of_shareTarget htmp hshare hresolve, hordinary, hcomponents⟩,
    hwrite⟩

end Decisions

section Roots

variable {policy other : FileSystemSandboxPolicy} {host : Host} {cwd root path : AbsolutePath}

theorem mem_getReadableRootsWithCwd (hlinks : host.IsLinkFree) :
    path ∈ policy.getReadableRootsWithCwd host cwd ↔
      policy.hasFullDiskReadAccess = false ∧
        ∃ mode, (path, mode) ∈ policy.resolvedEntriesWithCwd host cwd ∧ mode ≠ .deny ∧
          policy.canReadPathWithCwd host path cwd := by
  unfold getReadableRootsWithCwd
  by_cases hfull : policy.hasFullDiskReadAccess
  · simp [hfull]
  · rw [if_neg hfull, mem_dedupAbsolutePaths, mem_map]
    simp only [hfull, true_and, mem_filter, Bool.and_eq_true, canRead_iff, hlinks.noLinks]
    constructor
    · rintro ⟨entry, ⟨hmem, hentry⟩, rfl⟩
      exact ⟨entry.2, hmem, hentry⟩
    · rintro ⟨mode, hmem, hentry⟩
      exact ⟨(path, mode), ⟨hmem, hentry⟩, rfl⟩

theorem mem_getUnreadableRootsWithCwd (hkind : policy.kind = .restricted)
    (hlinks : host.IsLinkFree) :
    path ∈ policy.getUnreadableRootsWithCwd host cwd ↔
      (path, .deny) ∈ policy.resolvedEntriesWithCwd host cwd ∧
        policy.canReadPathWithCwd host path cwd = false ∧ path ≠ .root := by
  unfold getUnreadableRootsWithCwd
  rw [if_neg (by simp [hkind]), mem_dedupAbsolutePaths, mem_map]
  simp only [mem_filter, Bool.and_eq_true, decide_eq_true_eq, Bool.not_eq_true',
    bne_iff_ne, hlinks.noLinks]
  constructor
  · rintro ⟨⟨place, mode⟩, ⟨hmem, ⟨hdeny, hread⟩, hne⟩, rfl⟩
    exact ⟨hdeny ▸ hmem, hread, hne⟩
  · rintro ⟨hmem, hread, hne⟩
    exact ⟨(path, .deny), ⟨hmem, ⟨rfl, hread⟩, hne⟩, rfl⟩

def gitdirTarget (host : Host) (root : AbsolutePath) : Option AbsolutePath :=
  if host.isFile (childPath root ".git".toList) then
    host.gitdir (childPath root ".git".toList)
  else none

theorem gitdirTarget_or_child_of_mem_default {protectMissing : Bool}
    (h : path ∈ defaultReadOnlySubpathsForWritableRoot host root protectMissing) :
    gitdirTarget host root = some path ∨
      ∃ name ∈ protectedMetadataPathNames, path = childPath root name := by
  unfold defaultReadOnlySubpathsForWritableRoot at h
  rw [mem_dedupAbsolutePaths, mem_append, mem_append] at h
  rcases h with (hgit | hchild) | hchild
  · split at hgit
    · rw [mem_append] at hgit
      rcases hgit with htarget | hgit
      · split at htarget
        next hfile =>
          left
          rw [gitdirTarget, if_pos hfile]
          exact Option.mem_toList.mp htarget
        · cases htarget
      · exact .inr ⟨_, by simp [protectedMetadataPathNames], mem_singleton.mp hgit⟩
    · cases hgit
  all_goals
    split at hchild
    · exact .inr ⟨_, by simp [protectedMetadataPathNames], mem_singleton.mp hchild⟩
    · cases hchild

variable (policy other host cwd) in
/-- What equal signatures say about the roots. -/
structure SameProjection : Prop where
  fullRead : policy.hasFullDiskReadAccess = other.hasFullDiskReadAccess
  fullWrite : policy.hasFullDiskWriteAccess = other.hasFullDiskWriteAccess
  readable : ∀ path, path ∈ policy.getReadableRootsWithCwd host cwd ↔
    path ∈ other.getReadableRootsWithCwd host cwd
  unreadable : ∀ path, path ∈ policy.getUnreadableRootsWithCwd host cwd ↔
    path ∈ other.getUnreadableRootsWithCwd host cwd
  writable : SameRoots (policy.getWritableRootsWithCwd host cwd)
    (other.getWritableRootsWithCwd host cwd)

theorem SameProjection.symm (h : policy.SameProjection other host cwd) :
    other.SameProjection policy host cwd where
  fullRead := h.fullRead.symm
  fullWrite := h.fullWrite.symm
  readable path := (h.readable path).symm
  unreadable path := (h.unreadable path).symm
  writable := h.writable.symm

theorem sameProjection_of_equivalent (h : policy.isSemanticallyEquivalentTo other host cwd) :
    policy.SameProjection other host cwd := by
  have hsignature : policy.semanticSignature host cwd = other.semanticSignature host cwd :=
    of_decide_eq_true h
  have hreadable : sortedAbsolutePaths (policy.getReadableRootsWithCwd host cwd) =
      sortedAbsolutePaths (other.getReadableRootsWithCwd host cwd) :=
    congrArg readableRoots hsignature
  have hunreadable : sortedAbsolutePaths (policy.getUnreadableRootsWithCwd host cwd) =
      sortedAbsolutePaths (other.getUnreadableRootsWithCwd host cwd) :=
    congrArg unreadableRoots hsignature
  refine ⟨congrArg FileSystemSemanticSignature.hasFullDiskReadAccess hsignature,
    congrArg FileSystemSemanticSignature.hasFullDiskWriteAccess hsignature, fun path => ?_,
    fun path => ?_, sameRoots_of_sorted_eq (congrArg writableRoots hsignature)⟩
  · rw [← mem_sortedAbsolutePaths, hreadable, mem_sortedAbsolutePaths]
  · rw [← mem_sortedAbsolutePaths, hunreadable, mem_sortedAbsolutePaths]

end Roots

/-- A restricted policy whose decisions are made by its rules. -/
structure ActsByRules (host : Host) (cwd : AbsolutePath) : Prop where
  kind : policy.kind = .restricted
  alike : policy.SubpathsReadAlike host cwd
  active : policy.IsActive host cwd

/-- Where a `.git` file of a writable root of the policy points to a writable place,
the other policy has no entry. -/
def PointersUnlisted (policy other : FileSystemSandboxPolicy) (host : Host)
    (cwd : AbsolutePath) : Prop :=
  ∀ root target : AbsolutePath, gitdirTarget host root = some target → target ≠ root →
    target.IsOrdinary →
    Decides (policy.hostRules host cwd) target.components root.components .write →
    (Shielded (policy.hostRules host cwd) root.components ∨
      ¬ IsMetadata root.components target.components) →
    ¬ HasEntry (other.hostRules host cwd) target.components

section Same

variable {policy other : FileSystemSandboxPolicy} {host : Host} {cwd root path : AbsolutePath}

theorem ActsByRules.canRead_iff (h : policy.ActsByRules host cwd) (hlinks : host.IsLinkFree) :
    policy.canReadPathWithCwd host path cwd ↔
      path.IsOrdinary ∧ ReadableAt (policy.hostRules host cwd) path.components := by
  rw [canReadPathWithCwd_iff h.kind hlinks.tmp h.alike]
  exact and_iff_right h.active

theorem ActsByRules.decidesByRules (h : policy.ActsByRules host cwd) (hlinks : host.IsLinkFree)
    (hdisk : policy.hasFullDiskWriteAccess = false) : policy.DecidesByRules host cwd := by
  refine ⟨fun path => ?_⟩
  rw [canWritePathWithCwd_iff h.kind hdisk hlinks.tmp h.alike]
  simp only [h.active.ordinary, h.active.comparable, true_and]

theorem ActsByRules.exists_unreadable {place : AbsolutePath} {mode : FileSystemAccessMode}
    (h : policy.ActsByRules host cwd) (hlinks : host.IsLinkFree)
    (hmem : (place, mode) ∈ policy.resolvedEntriesWithCwd host cwd)
    (hread : policy.canReadPathWithCwd host place cwd)
    (habove : place.components <+: path.components)
    (hnot : ¬ ReadableAt (policy.hostRules host cwd) path.components) :
    ∃ denied ∈ policy.getUnreadableRootsWithCwd host cwd, denied.IsOrdinary ∧ denied ≠ place ∧
      place.components <+: denied.components ∧ denied.components <+: path.components := by
  obtain ⟨hordinary, other, level, hlevel, hplace⟩ := (h.canRead_iff hlinks).mp hread
  have hrule := mem_hostRules_of_mem hmem hordinary
  obtain ⟨components, denied, hdecides⟩ := exists_decides hrule habove
  obtain rfl : denied = .deny := by
    by_contra hmode
    exact hnot ⟨_, _, hmode, hdecides⟩
  obtain ⟨entry, hentry, hentryOrdinary, rfl⟩ := mem_hostRules.mp hdecides.mem
  have hself := decides_root hdecides
  have hbelow : place.components <+: entry.components := hdecides.deepest _ hrule habove
  have hne : entry ≠ place := by
    rintro rfl
    exact hlevel (hplace.level_unique hself)
  refine ⟨entry, (mem_getUnreadableRootsWithCwd h.kind hlinks).mpr ⟨hentry, ?_, ?_⟩,
    hentryOrdinary, hne, hbelow, hdecides.above⟩
  · rw [Bool.eq_false_iff, ne_eq, h.canRead_iff hlinks]
    rintro ⟨-, other, level, hlevel, hother⟩
    exact hlevel (hother.level_unique hself)
  · rintro rfl
    exact hne (ext (prefix_nil.mp hbelow).symm)

variable (h : policy.SameProjection other host cwd) (hpolicy : policy.ActsByRules host cwd)
  (hlinks : host.IsLinkFree)
include h hpolicy hlinks

/-- The rule that lets a policy read a place stands at a readable root of both policies. -/
theorem SameProjection.exists_readableRoot (hfull : policy.hasFullDiskReadAccess = false)
    (hread : ReadableAt (policy.hostRules host cwd) path.components) :
    ∃ root mode, Decides (policy.hostRules host cwd) path.components root.components mode ∧
      root ∈ other.getReadableRootsWithCwd host cwd := by
  obtain ⟨components, mode, hmode, hdecides⟩ := hread
  obtain ⟨root, hmem, hordinary, rfl⟩ := mem_hostRules.mp hdecides.mem
  have hself : ReadableAt (policy.hostRules host cwd) root.components :=
    ⟨_, mode, hmode, decides_root hdecides⟩
  refine ⟨root, mode, hdecides, (h.readable root).mp ?_⟩
  exact (mem_getReadableRootsWithCwd hlinks).mpr
    ⟨hfull, mode, hmem, hmode, (hpolicy.canRead_iff hlinks).mpr ⟨hordinary, hself⟩⟩

theorem SameProjection.not_canRead (hfull : policy.hasFullDiskReadAccess = false)
    (hother : ∀ path, other.canReadPathWithCwd host path cwd = false)
    (path : AbsolutePath) : policy.canReadPathWithCwd host path cwd = false := by
  rw [Bool.eq_false_iff, ne_eq, hpolicy.canRead_iff hlinks]
  rintro ⟨-, hread⟩
  obtain ⟨root, -, -, hroot⟩ := h.exists_readableRoot hpolicy hlinks hfull hread
  obtain ⟨-, -, -, -, hread'⟩ := (mem_getReadableRootsWithCwd hlinks).mp hroot
  rw [hother root] at hread'
  cases hread'

variable (hother : other.ActsByRules host cwd)
include hother

/-- Equal signatures read alike. -/
theorem SameProjection.readableAt (hfull : policy.hasFullDiskReadAccess = false)
    (hread : ReadableAt (policy.hostRules host cwd) path.components) :
    ReadableAt (other.hostRules host cwd) path.components := by
  obtain ⟨root, mode, hdecides, hroot⟩ := h.exists_readableRoot hpolicy hlinks hfull hread
  obtain ⟨-, mode', hmem, -, hread'⟩ := (mem_getReadableRootsWithCwd hlinks).mp hroot
  by_contra hnot
  -- A deeper denial would be an unreadable root of both policies.
  obtain ⟨denied, hunreadable, hordinary, hne, habove, hbegins⟩ :=
    hother.exists_unreadable hlinks hmem hread' hdecides.above hnot
  obtain ⟨hlisted, -⟩ := (mem_getUnreadableRootsWithCwd hpolicy.kind hlinks).mp
    ((h.unreadable denied).mpr hunreadable)
  have hbelow := hdecides.deepest _ (mem_hostRules_of_mem hlisted hordinary) hbegins
  exact hne (ext (prefix_antisymm hbelow habove))

variable (hdisk : policy.hasFullDiskWriteAccess = false)
include hdisk

theorem SameProjection.same_projectRoot (hordinary : root.IsOrdinary)
    (hroot : IsWriteRoot (policy.hostRules host cwd) root.components) :
    IsWriteRoot (other.hostRules host cwd) root.components ∧
      (policy.projectRoot host host.normalizeEffective cwd
          (policy.writableEntries host cwd) root).Same
        (other.projectRoot host host.normalizeEffective cwd
          (other.writableEntries host cwd) root) := by
  have hdisk' : other.hasFullDiskWriteAccess = false := h.fullWrite ▸ hdisk
  have hwritable := ((hpolicy.decidesByRules hlinks hdisk).isWriteRoot_iff hordinary).mp hroot
  obtain ⟨writable, hmem, hsame⟩ := h.writable.left _
    ((mem_getWritableRootsWithCwd hlinks hdisk).mpr ⟨root, hwritable.1, hwritable.2, rfl⟩)
  obtain ⟨root', hentry, hwrite, rfl⟩ := (mem_getWritableRootsWithCwd hlinks hdisk').mp hmem
  obtain rfl : root = root' := hsame.root
  exact ⟨((hother.decidesByRules hlinks hdisk').isWriteRoot_iff hordinary).mpr
    ⟨hentry, hwrite⟩, hsame⟩

theorem SameProjection.writableAt_child_iff {name : Text}
    (hordinary : root.IsOrdinary) (hroot : IsWriteRoot (policy.hostRules host cwd) root.components)
    (hname : name ∈ protectedMetadataPathNames) :
    WritableAt (policy.hostRules host cwd) (root.components ++ [utf8Bytes name]) ↔
      WritableAt (other.hostRules host cwd) (root.components ++ [utf8Bytes name]) := by
  have hdisk' : other.hasFullDiskWriteAccess = false := h.fullWrite ▸ hdisk
  have hsame := (h.same_projectRoot hpolicy hlinks hother hdisk hordinary hroot).2
  have hnames := hsame.protectedMetadataNames name
  have hchild := isOrdinary_childPath hordinary hname
  have hrefused : ∀ p : FileSystemSandboxPolicy, p.DecidesByRules host cwd →
      (name ∈ (p.projectRoot host host.normalizeEffective cwd
          (p.writableEntries host cwd) root).protectedMetadataNames ↔
        ¬ WritableAt (p.hostRules host cwd) (root.components ++ [utf8Bytes name])) := by
    intro p hp
    have hmem := @mem_protectedMetadataNames_iff p host cwd root name _
      (fun _ => @rawRoots_eq p host cwd root _ hlinks)
    refine hmem.trans ?_
    rw [Bool.eq_false_iff, ne_eq, hp.canWrite_iff, components_childPath root hname]
    simp only [hname, hchild, true_and]
  rw [hrefused policy (hpolicy.decidesByRules hlinks hdisk),
    hrefused other (hother.decidesByRules hlinks hdisk'), not_iff_not] at hnames
  exact hnames

/-- Writable roots with their carve-outs determine what may be written, apart from
the targets of `.git` files. -/
theorem SameProjection.writableAt (hpointers : policy.PointersUnlisted other host cwd)
    (hwrite : WritableAt (policy.hostRules host cwd) path.components) :
    WritableAt (other.hostRules host cwd) path.components := by
  have hdisk' : other.hasFullDiskWriteAccess = false := h.fullWrite ▸ hdisk
  obtain ⟨components, hdecides, hallowed⟩ := hwrite
  obtain ⟨root, -, hordinary, rfl⟩ := mem_hostRules.mp hdecides.mem
  have hself := decides_root hdecides
  obtain ⟨hroot, hsame⟩ := h.same_projectRoot hpolicy hlinks hother hdisk hordinary hself
  obtain ⟨components', level, hdecides'⟩ := exists_decides hroot.mem hdecides.above
  obtain ⟨place, hplace, hplaceOrdinary, rfl⟩ := mem_hostRules.mp hdecides'.mem
  have habove : root.components <+: place.components := hdecides'.deepest _ hroot.mem hdecides.above
  by_cases heq : place = root
  · subst heq
    obtain rfl : level = .write := (decides_root hdecides').level_unique hroot
    refine ⟨_, hdecides', ?_⟩
    by_cases hmetadata : IsMetadata place.components path.components
    · -- Both policies leave the protected name to the root.
      have hshielded := hallowed.resolve_right (not_not.mpr hmetadata)
      obtain ⟨bytes, hbytes, hbegins⟩ := hmetadata
      obtain ⟨name, hname, rfl⟩ := mem_map.mp hbytes
      have hchild := h.writableAt_child_iff hpolicy hlinks hother hdisk hordinary hself hname
      rw [Permissions.writableAt_child_iff hself hbytes (not_hasEntry_of_decides hdecides hbegins),
        Permissions.writableAt_child_iff hroot hbytes
          (not_hasEntry_of_decides hdecides' hbegins)] at hchild
      exact .inl (hchild.mp hshielded)
    · exact .inr hmetadata
  · -- The policy has no entry at the deeper place, so a carve-out there is a default.
    have hunlisted : ∀ mode, (place, mode) ∉ policy.resolvedEntriesWithCwd host cwd := by
      intro mode hmem
      have hbelow := hdecides.deepest _ (mem_hostRules_of_mem hmem hplaceOrdinary) hdecides'.above
      exact heq (ext (prefix_antisymm hbelow habove))
    have hnotWrite : ¬ IsWriteRoot (other.hostRules host cwd) place.components := by
      intro hwrite
      obtain ⟨hback, -⟩ := h.symm.same_projectRoot hother hlinks hpolicy hdisk'
        hplaceOrdinary hwrite
      obtain ⟨q, hq, -, hcomponents⟩ := mem_hostRules.mp hback.mem
      obtain rfl := ext hcomponents
      exact hunlisted _ hq
    have hlevel : level ≠ .write := by
      rintro rfl
      exact hnotWrite (decides_root hdecides')
    have hrefused : other.canWritePathWithCwd host place cwd = false := by
      rw [Bool.eq_false_iff, ne_eq, (hother.decidesByRules hlinks hdisk').canWrite_iff,
        writableAt_iff_of_hasEntry ⟨level, hdecides'.mem⟩]
      exact fun hwrite => hnotWrite hwrite.2
    have hcarved := (hsame.readOnlySubpaths place).mpr ((mem_readOnlySubpaths_iff hlinks).mpr
        (.inr ⟨level, hplace, hlevel, hrefused, heq, habove⟩))
    rcases (mem_readOnlySubpaths_iff hlinks).mp hcarved with ⟨hdefault, -⟩ | ⟨mode, hmem, -⟩
    · rcases gitdirTarget_or_child_of_mem_default hdefault with htarget | ⟨name, hname, rfl⟩
      · refine absurd ⟨level, hdecides'.mem⟩ (hpointers root place htarget heq hplaceOrdinary
            (hdecides.restrict habove hdecides'.above) (hallowed.imp_right ?_))
        rintro hnot ⟨name, hname, hbegins⟩
        exact hnot ⟨name, hname, hbegins.trans hdecides'.above⟩
      · rw [components_childPath root hname] at hnotWrite hdecides'
        have hbytes : utf8Bytes name ∈ protectedNames := mem_map_of_mem hname
        have hshielded := hallowed.resolve_right (not_not.mpr ⟨_, hbytes, hdecides'.above⟩)
        have hwritable := (Permissions.writableAt_child_iff hself hbytes
          (not_hasEntry_of_decides hdecides hdecides'.above)).mpr hshielded
        rw [h.writableAt_child_iff hpolicy hlinks hother hdisk hordinary hself hname,
          writableAt_iff_of_hasEntry ⟨level, hdecides'.mem⟩] at hwritable
        exact absurd hwritable hnotWrite
    · exact absurd hmem (hunlisted mode)

end Same

/-- Both policies decide alike on every path. -/
def SameDecisions (policy other : FileSystemSandboxPolicy) (host : Host)
    (cwd : AbsolutePath) : Prop :=
  ∀ path, policy.canReadPathWithCwd host path cwd = other.canReadPathWithCwd host path cwd ∧
    policy.canWritePathWithCwd host path cwd = other.canWritePathWithCwd host path cwd

/-- What the signature does not say about two policies. -/
structure SignatureSuffices (policy other : FileSystemSandboxPolicy) (host : Host)
    (cwd : AbsolutePath) : Prop where
  kinds : policy.kind = .restricted ↔ other.kind = .restricted
  comparable : policy.kind = .restricted → cwd.IsOrdinary →
    (policy.hasFullDiskReadAccess = true ∨ policy.hasFullDiskWriteAccess = true) →
    (policy.IsComparable (localContext host cwd) ↔ other.IsComparable (localContext host cwd))
  pointers : policy.kind = .restricted → policy.IsActive host cwd →
    other.IsActive host cwd → policy.hasFullDiskWriteAccess = false →
    policy.PointersUnlisted other host cwd ∧ other.PointersUnlisted policy host cwd

section Suffices

variable {policy other : FileSystemSandboxPolicy} {host : Host} {cwd : AbsolutePath}

theorem canWrite_of_not_restricted (hkind : policy.kind ≠ .restricted)
    (path : AbsolutePath) : policy.canWritePathWithCwd host path cwd := by
  cases hown : policy.kind with
  | restricted => exact absurd hown hkind
  | _ =>
    simp [canWritePathWithCwd, canWritePath, resolveAccess, hasFullDiskWriteAccess, hown, canWrite]

theorem not_canRead_of_inactive (hkind : policy.kind = .restricted) (hlinks : host.IsLinkFree)
    (halike : policy.SubpathsReadAlike host cwd) (hinactive : ¬ policy.IsActive host cwd)
    (path : AbsolutePath) : policy.canReadPathWithCwd host path cwd = false := by
  rw [Bool.eq_false_iff, ne_eq, canReadPathWithCwd_iff hkind hlinks.tmp halike]
  exact fun h => hinactive h.1

theorem sameDecisions_of_no_reads
    (hpolicy : ∀ path, policy.canReadPathWithCwd host path cwd = false)
    (hother : ∀ path, other.canReadPathWithCwd host path cwd = false) :
    policy.SameDecisions other host cwd := by
  have hwrite : ∀ p : FileSystemSandboxPolicy,
      (∀ path, p.canReadPathWithCwd host path cwd = false) →
      ∀ path, p.canWritePathWithCwd host path cwd = false := by
    intro p hp path
    rw [Bool.eq_false_iff]
    intro h
    have hread := canRead_of_canWrite h
    rw [hp path] at hread
    cases hread
  intro path
  exact ⟨(hpolicy path).trans (hother path).symm,
    (hwrite policy hpolicy path).trans (hwrite other hother path).symm⟩

theorem ActsByRules.canRead_root (h : policy.ActsByRules host cwd) (hlinks : host.IsLinkFree)
    (hfull : policy.hasFullDiskReadAccess ∨ policy.hasFullDiskWriteAccess) :
    policy.canReadPathWithCwd host .root cwd := by
  rw [h.canRead_iff hlinks]
  refine ⟨isOrdinary_root, ?_⟩
  rcases hfull with hread | hwrite
  · exact readableAt_of_full h.kind hread _
  · obtain ⟨root, hdecides⟩ := @decides_write_of_full policy host cwd h.kind hlinks.tmp hwrite
      AbsolutePath.root.components
    exact ⟨root, .write, by decide, hdecides⟩

/-- Equal signatures decide alike, where both policies act by their rules. -/
theorem SameProjection.sameDecisions (h : policy.SameProjection other host cwd)
    (hpolicy : policy.ActsByRules host cwd) (hother : other.ActsByRules host cwd)
    (hlinks : host.IsLinkFree)
    (hpointers : policy.hasFullDiskWriteAccess = false →
      policy.PointersUnlisted other host cwd ∧ other.PointersUnlisted policy host cwd) :
    policy.SameDecisions other host cwd := by
  intro path
  constructor
  · rw [Bool.eq_iff_iff, hpolicy.canRead_iff hlinks, hother.canRead_iff hlinks]
    refine and_congr_right fun _ => ?_
    by_cases hfull : policy.hasFullDiskReadAccess
    · exact iff_of_true (readableAt_of_full hpolicy.kind hfull _)
        (readableAt_of_full hother.kind (h.fullRead ▸ hfull) _)
    · have hfull := Bool.eq_false_iff.mpr hfull
      exact ⟨h.readableAt hpolicy hlinks hother hfull,
        h.symm.readableAt hother hlinks hpolicy (h.fullRead ▸ hfull)⟩
  · rw [Bool.eq_iff_iff]
    by_cases hdisk : policy.hasFullDiskWriteAccess
    · have hdisk' : other.hasFullDiskWriteAccess := h.fullWrite ▸ hdisk
      rw [canWritePathWithCwd_iff_of_full hpolicy.kind hdisk hlinks.tmp hpolicy.alike,
        canWritePathWithCwd_iff_of_full hother.kind hdisk' hlinks.tmp hother.alike]
      simp only [hpolicy.active, hother.active, true_and]
      refine and_congr_right fun _ => iff_of_true ?_ ?_
      · exact decides_write_of_full hpolicy.kind hlinks.tmp hdisk _
      · exact decides_write_of_full hother.kind hlinks.tmp hdisk' _
    · have hdisk := Bool.eq_false_iff.mpr hdisk
      have hdisk' : other.hasFullDiskWriteAccess = false := h.fullWrite ▸ hdisk
      obtain ⟨hforward, hback⟩ := hpointers hdisk
      rw [(hpolicy.decidesByRules hlinks hdisk).canWrite_iff,
        (hother.decidesByRules hlinks hdisk').canWrite_iff]
      refine and_congr_right fun _ => ⟨?_, ?_⟩
      · exact h.writableAt hpolicy hlinks hother hdisk hforward
      · exact h.symm.writableAt hother hlinks hpolicy hdisk' hback

theorem SignatureSuffices.sameDecisions (hsuffices : policy.SignatureSuffices other host cwd)
    (h : policy.SameProjection other host cwd) (hlinks : host.IsLinkFree)
    (halike : policy.SubpathsReadAlike host cwd)
    (halike' : other.SubpathsReadAlike host cwd) : policy.SameDecisions other host cwd := by
  by_cases hkind : policy.kind = .restricted
  · have hkind' := hsuffices.kinds.mp hkind
    by_cases hactive : policy.IsActive host cwd
    · have hpolicy : policy.ActsByRules host cwd := ⟨hkind, halike, hactive⟩
      by_cases hactive' : other.IsActive host cwd
      · exact h.sameDecisions hpolicy ⟨hkind', halike', hactive'⟩ hlinks
          (hsuffices.pointers hkind hactive hactive')
      · have hother := not_canRead_of_inactive hkind' hlinks halike' hactive'
        have hfull : policy.hasFullDiskReadAccess = false := by
          by_contra hfull
          have hboth := hsuffices.comparable hkind hactive.ordinary
            (.inl (Bool.eq_true_of_not_eq_false hfull))
          exact hactive' ⟨hactive.ordinary, hboth.mp hactive.comparable⟩
        exact sameDecisions_of_no_reads (h.not_canRead hpolicy hlinks hfull hother) hother
    · have hpolicy := not_canRead_of_inactive hkind hlinks halike hactive
      by_cases hactive' : other.IsActive host cwd
      · have hfull : other.hasFullDiskReadAccess = false := by
          by_contra hfull
          have hboth := hsuffices.comparable hkind hactive'.ordinary
            (.inl (h.fullRead ▸ Bool.eq_true_of_not_eq_false hfull))
          exact hactive ⟨hactive'.ordinary, hboth.mpr hactive'.comparable⟩
        exact sameDecisions_of_no_reads hpolicy
          (h.symm.not_canRead ⟨hkind', halike', hactive'⟩ hlinks hfull hpolicy)
      · exact sameDecisions_of_no_reads hpolicy
          (not_canRead_of_inactive hkind' hlinks halike' hactive')
  · have hkind' : other.kind ≠ .restricted := fun h => hkind (hsuffices.kinds.mpr h)
    intro path
    have hwrite : policy.canWritePathWithCwd host path cwd := canWrite_of_not_restricted hkind path
    have hwrite' : other.canWritePathWithCwd host path cwd := canWrite_of_not_restricted hkind' path
    exact ⟨(canRead_of_canWrite hwrite).trans (canRead_of_canWrite hwrite').symm,
      hwrite.trans hwrite'.symm⟩

/-! ## Policies that the signature does not tell apart -/

def drivePath : AbsolutePath := ⟨[utf8Bytes "C:".toList], by decide⟩

section

variable (h : policy.SameDecisions other host cwd)
include h

theorem SameDecisions.restricted_iff
    (hlinks : host.IsLinkFree) (halike : policy.SubpathsReadAlike host cwd)
    (hkind : policy.kind = .restricted) : other.kind = .restricted := by
  by_contra hkind'
  have hread := (h drivePath).1
  have hother : other.canReadPathWithCwd host drivePath cwd :=
    canRead_of_canWrite (canWrite_of_not_restricted hkind' drivePath)
  rw [hother, canReadPathWithCwd_iff hkind hlinks.tmp halike] at hread
  exact not_isOrdinary_of_drive (by decide) hread.2.1

theorem SameDecisions.comparable (hlinks : host.IsLinkFree) (hpolicy : policy.ActsByRules host cwd)
    (hkind' : other.kind = .restricted) (halike' : other.SubpathsReadAlike host cwd)
    (hfull : policy.hasFullDiskReadAccess ∨ policy.hasFullDiskWriteAccess) :
    other.IsComparable (localContext host cwd) := by
  have hroot := hpolicy.canRead_root hlinks hfull
  rw [(h .root).1, canReadPathWithCwd_iff hkind' hlinks.tmp halike'] at hroot
  exact hroot.1.comparable

theorem SameDecisions.pointersUnlisted
    (hsame : policy.SameProjection other host cwd) (hlinks : host.IsLinkFree)
    (hpolicy : policy.ActsByRules host cwd) (hother : other.ActsByRules host cwd)
    (hdisk : policy.hasFullDiskWriteAccess = false) : policy.PointersUnlisted other host cwd := by
  intro root target _ hne hordinary hdecides hallowed hentry
  have hdisk' : other.hasFullDiskWriteAccess = false := hsame.fullWrite ▸ hdisk
  have hwrite : policy.canWritePathWithCwd host target cwd :=
    ((hpolicy.decidesByRules hlinks hdisk).canWrite_iff target).mpr
      ⟨hordinary, _, hdecides, hallowed⟩
  rw [(h target).2, (hother.decidesByRules hlinks hdisk').canWrite_iff,
    writableAt_iff_of_hasEntry hentry] at hwrite
  -- The target would be a root of both policies, but here the root above decides it.
  obtain ⟨hback, -⟩ := hsame.symm.same_projectRoot hother hlinks hpolicy hdisk' hordinary hwrite.2
  exact hne (ext (hback.root_unique hdecides))

end

/-- For equal signatures: decisions are the same exactly under the conditions. -/
theorem sameDecisions_iff_of_equivalent (hlinks : host.IsLinkFree)
    (halike : policy.SubpathsReadAlike host cwd) (halike' : other.SubpathsReadAlike host cwd)
    (heq : policy.isSemanticallyEquivalentTo other host cwd) :
    policy.SameDecisions other host cwd ↔ policy.SignatureSuffices other host cwd := by
  have hsame := sameProjection_of_equivalent heq
  refine ⟨fun h => ?_, fun h => h.sameDecisions hsame hlinks halike halike'⟩
  have hback : other.SameDecisions policy host cwd := fun path => ⟨(h path).1.symm, (h path).2.symm⟩
  have hkinds : policy.kind = .restricted ↔ other.kind = .restricted :=
    ⟨h.restricted_iff hlinks halike, hback.restricted_iff hlinks halike'⟩
  refine ⟨hkinds, ?_, ?_⟩
  · intro hkind hcwd hfull
    have hkind' := hkinds.mp hkind
    constructor
    · intro hcomparable
      exact h.comparable hlinks ⟨hkind, halike, hcwd, hcomparable⟩ hkind' halike' hfull
    · intro hcomparable
      rw [hsame.fullRead, hsame.fullWrite] at hfull
      exact hback.comparable hlinks ⟨hkind', halike', hcwd, hcomparable⟩ hkind halike hfull
  · intro hkind hactive hactive' hdisk
    have hpolicy : policy.ActsByRules host cwd := ⟨hkind, halike, hactive⟩
    have hother : other.ActsByRules host cwd := ⟨hkinds.mp hkind, halike', hactive'⟩
    exact ⟨h.pointersUnlisted hsame hlinks hpolicy hother hdisk,
      hback.pointersUnlisted hsame.symm hlinks hother hpolicy (hsame.fullWrite ▸ hdisk)⟩

end Suffices

end FileSystemSandboxPolicy

end Rexux.Permissions
