import Mathlib.Data.PNat.Basic
import Rexux.Permissions.Policy

/-!
# Intersecting permission profiles

A command requests additional permissions and a user grants some.  What the
command receives is computed from both: the granted entries that the request
covers, together with the `deny` entries of either side that touch them.

An accepted entry is compared with the request at its own path only.  Below that
path the request may be narrower, and of its narrower entries only those that
deny are carried over.  `LimitsKept` says when nothing is lost, and
`withinBoth_iff_limitsKept` that this is exactly when the result stays within
both sides.
-/

namespace Rexux.Permissions

open Foundation Rexux.Path List FileSystemSandboxPolicy FileSystemAccessMode
  FileSystemSandboxEntry PathUri

structure NetworkPermissions where
  enabled : Option Bool
  deriving DecidableEq, Repr

structure FileSystemPermissions where
  entries : List FileSystemSandboxEntry
  globScanMaxDepth : Option ℕ+
  deriving DecidableEq

abbrev FileSystemPermissions.policy (permissions : FileSystemPermissions) :
    FileSystemSandboxPolicy := .restricted permissions.entries

def optionalEntries (fileSystem : Option FileSystemPermissions) : List FileSystemSandboxEntry :=
  match fileSystem with
  | some permissions => permissions.entries
  | none => []

/-- Permissions beyond those of the sandbox. -/
structure AdditionalPermissionProfile where
  network : Option NetworkPermissions
  fileSystem : Option FileSystemPermissions
  deriving DecidableEq

namespace AdditionalPermissionProfile

variable (profile : AdditionalPermissionProfile)

def entries : List FileSystemSandboxEntry :=
  optionalEntries profile.fileSystem

def policy : FileSystemSandboxPolicy :=
  .restricted profile.entries

def networkEnabled : Bool :=
  profile.network = some ⟨some true⟩

end AdditionalPermissionProfile

/-- Compiled patterns for the bytes of a path; `none` for invalid patterns. -/
abbrev GlobCompiler := Text → Option (Bytes → Bool)

/-- The denied roots, and the denied globs as matchers. -/
structure PreparedReadDenyMatcher where
  deniedRoots : List PathUri
  denyReadMatchers : List (Bytes → Bool)
  invalidPattern : Bool

namespace FileSystemSandboxPolicy

/-- A deny pattern as an absolute path; patterns below `~/` start at the home
directory. -/
def denyReadGlob (pattern : Text) (context : FileSystemSandboxPolicyContext) : Option Text :=
  match List.isPrefixOf? "~/".toList pattern with
  | some suffix =>
    match context.userHomeDir with
    | some home => (home.join (suffix.dropWhile (· = '/'))).toOption.map inferredNativePathString
    | none => none
  | none => (context.cwd.join pattern).toOption.map inferredNativePathString

/-- The deny patterns, or `none` if one of them cannot be resolved. -/
def denyReadGlobs (policy : FileSystemSandboxPolicy)
    (context : FileSystemSandboxPolicyContext) : Option (List Text) :=
  (policy.entries.filterMap fun entry =>
    match entry.path with
    | .globPattern pattern =>
      if entry.access = .deny then some pattern else none
    | _ => none).mapM (denyReadGlob · context)

def coincides (path other : PathUri) : Bool := path.startsWith other && other.startsWith path

/-- `prepare_deny_read_matcher`, which fails closed on invalid patterns. -/
def prepareDenyReadMatcher (compile : GlobCompiler) (policy : FileSystemSandboxPolicy)
    (context : FileSystemSandboxPolicyContext) : PreparedReadDenyMatcher :=
  let deniedRoots :=
    ((policy.resolvedEntries context).filter fun entry =>
      entry.2 = .deny && !context.fileSystemRoot.any (coincides entry.1)).map Prod.fst
  match context.cwd.inferPathConvention with
  | none => ⟨deniedRoots, [], true⟩
  | some _ =>
    match policy.denyReadGlobs context with
    | none => ⟨deniedRoots, [], true⟩
    | some patterns => ⟨deniedRoots, patterns.filterMap compile, patterns.any (compile · |>.isNone)⟩

def matchesPreparedReadDeny (path : PathUri) (context : FileSystemSandboxPolicyContext)
    (prepared : PreparedReadDenyMatcher) : Bool :=
  match context.cwd.inferPathConvention with
  | none => true
  | some convention =>
    if path.inferPathConvention ≠ some convention ||
        path.lexicalDepth.isNone || context.cwd.lexicalDepth.isNone then true
    else if prepared.invalidPattern then true
    else
      prepared.deniedRoots.any (path.startsWith ·) ||
        prepared.denyReadMatchers.any (· path.decodedPathBytes)

def readDenyMatcher (compile : GlobCompiler) (policy : FileSystemSandboxPolicy)
    (context : FileSystemSandboxPolicyContext) : Option PreparedReadDenyMatcher :=
  if policy.entries.any (·.access = .deny) then
    some (policy.prepareDenyReadMatcher compile context)
  else none

end FileSystemSandboxPolicy

/-- The one path of an entry; symbolic entries with several paths give their
first. -/
def resolvePermissionPath (path : FileSystemPath)
    (context : FileSystemSandboxPolicyContext) : Option PathUri :=
  match path with
  | .path uri => some uri
  | .globPattern _ => none
  | .special value =>
    match value with
    | .root => context.fileSystemRoot
    | .projectRoots subpath => context.workspaceRoots.head?.bind (projectRootPath subpath)
    | .tmpdir => context.temporaryDirectories.bind List.head?
    | .slashTmp =>
      if context.cwd.inferPathConvention = some .posix then
        (context.cwd.join "/tmp".toList).toOption
      else none
    | .minimal => none
    | .unknown _ _ => none

variable (entries : List FileSystemSandboxEntry) (entry : FileSystemSandboxEntry)
  (context : FileSystemSandboxPolicyContext)

def materializedPathEntry (path : PathUri) : FileSystemSandboxEntry :=
  { entry with path := .path path }

/-- Patterns become absolute; `none` if that is not possible. -/
def materializeCwdDependentEntry : Option FileSystemSandboxEntry :=
  match entry.path with
  | .globPattern pattern =>
    let resolved :=
      if pattern = "~".toList then context.userHomeDir
      else
        match List.isPrefixOf? "~/".toList pattern with
        | some suffix =>
          context.userHomeDir.bind fun home => (home.join (suffix.dropWhile (· = '/'))).toOption
        | none => (context.cwd.join pattern).toOption
    resolved.map fun path => { entry with path := .globPattern path.inferredNativePathString }
  | _ => some entry

/-- One entry for each workspace root; a `deny` entry must not lose any. -/
def materializeProjectRoots : List PathUri → Option (List FileSystemSandboxEntry)
  | [] => some []
  | root :: roots =>
    match resolvePermissionPath entry.path { context with workspaceRoots := [root] } with
    | none => if entry.access = .deny then none else materializeProjectRoots roots
    | some path => (materializeProjectRoots roots).map (materializedPathEntry entry path :: ·)

def materializeEntry : Option (List FileSystemSandboxEntry) :=
  match entry.path with
  | .special (.projectRoots _) =>
    match materializeProjectRoots entry context context.workspaceRoots with
    | none => none
    | some resolved =>
      if entry.access = .deny && resolved.isEmpty then none else some resolved
  | .special .tmpdir =>
    match context.temporaryDirectories with
    | none => if entry.access = .deny then none else some [entry]
    | some directories => some (directories.map (materializedPathEntry entry))
  | .special .root => (resolvePermissionPath entry.path context).map fun _ => [entry]
  | _ =>
    match materializeCwdDependentEntry entry context with
    | none => if entry.access = .deny then none else some []
    | some entry => some [entry]

/-- Entries in terms of the context are written out as paths. -/
def materializeContextDependentEntries :
    List FileSystemSandboxEntry → Option (List FileSystemSandboxEntry)
  | [] => some []
  | entry :: rest =>
    match materializeEntry entry context with
    | none => none
    | some entries => (materializeContextDependentEntries rest).map (entries ++ ·)

/-- What is requested is enough for what is granted. -/
def accessCovers (requested granted : FileSystemAccessMode) : Bool :=
  match granted with
  | .read => requested.canRead
  | .write => requested.canWrite
  | .deny => false

def isRootEntry : Bool := entry.path = .special .root

/-- The granted entry asks for nothing beyond the request. -/
def grantedFileSystemEntryWithinRequest (requested : FileSystemPermissions)
    (requestedPolicy : FileSystemSandboxPolicy)
    (matcher : Option PreparedReadDenyMatcher) (granted : FileSystemSandboxEntry)
    (context : FileSystemSandboxPolicyContext) : Bool :=
  if !granted.access.canRead ||
      (granted.path = .special .slashTmp &&
        context.cwd.inferPathConvention ≠ some .posix) then false
  else if context.cwd.inferPathConvention = some .windows && isRootEntry granted &&
      !requested.entries.any (fun entry =>
        isRootEntry entry && accessCovers entry.access granted.access) then false
  else
    match resolvePermissionPath granted.path context with
    | some path =>
      if path.inferPathConvention ≠ context.cwd.inferPathConvention ||
          matcher.any (matchesPreparedReadDeny path context)
      then false
      else accessCovers (requestedPolicy.resolveAccess path context) granted.access
    | none =>
      requested.entries.any fun entry =>
        accessCovers entry.access granted.access && entry.path.samePath granted.path

/-! ## Retained `deny` entries -/

def pathsOverlap (left right : PathUri) : Bool := (left.overlaps right).getD true

def isGlobCharacter (c : Char) : Bool := c = '*' || c = '?' || c = '[' || c = ']'

/-- The directory above everything that a pattern can match. -/
def globStaticPrefixPath (pattern : Text) (context : FileSystemSandboxPolicyContext) :
    Option PathUri :=
  let start := pattern.takeWhile (!isGlobCharacter ·)
  if start = pattern then (context.cwd.join start).toOption
  else if start.isEmpty then none
  else
    (context.cwd.join start).toOption.bind fun path =>
      if start.getLast? = some '/' then some path else path.parent

/-- The denial takes something away from an entry that was accepted. -/
def denyEntryConstrainsAcceptedGrant (denied : FileSystemSandboxEntry)
    (accepted : List FileSystemSandboxEntry)
    (context : FileSystemSandboxPolicyContext) : Bool :=
  (accepted.filter (·.access.canRead)).any fun entry =>
    if isRootEntry entry then true
    else
      match resolvePermissionPath entry.path context with
      | none => true
      | some grantPath =>
        match denied.path with
        | .globPattern pattern =>
          (globStaticPrefixPath pattern context).all (pathsOverlap · grantPath)
        | path => (resolvePermissionPath path context).all (pathsOverlap · grantPath)

def pushNew : List FileSystemSandboxEntry :=
  if entries.any (·.sameEntry entry) then entries else entries ++ [entry]

/-- The `deny` entries that touch an accepted grant. -/
def constrainingDenyEntries (source accepted : List FileSystemSandboxEntry)
    (context : FileSystemSandboxPolicyContext) : List FileSystemSandboxEntry :=
  source.filter fun entry =>
    entry.access = .deny && denyEntryConstrainsAcceptedGrant entry accepted context

inductive GlobScanDepth where
  | bounded (depth : ℕ)
  | unbounded
  deriving DecidableEq, Repr

def effectiveGlobScanDepth (depth : Option ℕ) : Option GlobScanDepth :=
  if entries.any fun entry => entry.access = .deny && entry.isGlob then
    match depth with
    | some depth => some (.bounded depth)
    | none => some .unbounded
  else none

/-- The deeper of the two scans. -/
def mergeGlobScanMaxDepth (leftEntries : List FileSystemSandboxEntry)
    (leftDepth : Option ℕ) (rightEntries : List FileSystemSandboxEntry)
    (rightDepth : Option ℕ) : Option ℕ :=
  match effectiveGlobScanDepth leftEntries leftDepth,
      effectiveGlobScanDepth rightEntries rightDepth with
  | some .unbounded, _ => none
  | _, some .unbounded => none
  | some (.bounded left), some (.bounded right) => some (max left right)
  | some (.bounded depth), none => some depth
  | none, some (.bounded depth) => some depth
  | none, none => none

/-! ## The intersection -/

def intersectEntries (compile : GlobCompiler) (requested granted : FileSystemPermissions)
    (requestedEntries grantedEntries : List FileSystemSandboxEntry)
    (context : FileSystemSandboxPolicyContext) : FileSystemPermissions :=
  let requestedPolicy := restricted requestedEntries
  let matcher := requestedPolicy.readDenyMatcher compile context
  let accepted := (grantedEntries.filter fun entry =>
    grantedFileSystemEntryWithinRequest requested requestedPolicy matcher entry
      context).foldl pushNew []
  let requestedDenied := constrainingDenyEntries requestedEntries accepted context
  let grantedDenied := constrainingDenyEntries grantedEntries accepted context
  { entries := grantedDenied.foldl pushNew (requestedDenied.foldl pushNew accepted)
    globScanMaxDepth :=
      (mergeGlobScanMaxDepth requestedDenied
        (requested.globScanMaxDepth.map PNat.val) grantedDenied
        (granted.globScanMaxDepth.map PNat.val)).bind fun depth =>
          if h : 0 < depth then some ⟨depth, h⟩ else none }

def intersectFileSystem (compile : GlobCompiler) (requested granted : FileSystemPermissions)
    (context : FileSystemSandboxPolicyContext) : Option FileSystemPermissions :=
  match materializeContextDependentEntries context requested.entries,
      materializeContextDependentEntries context granted.entries with
  | some requestedEntries, some grantedEntries =>
    some (intersectEntries compile requested granted requestedEntries grantedEntries context)
  | _, _ => none

/-- What is granted of a request. -/
def intersectPermissionProfilesWithContext (compile : GlobCompiler)
    (requested granted : AdditionalPermissionProfile)
    (context : FileSystemSandboxPolicyContext) : AdditionalPermissionProfile where
  network :=
    if requested.networkEnabled && granted.networkEnabled then some ⟨some true⟩
    else none
  fileSystem :=
    (requested.fileSystem.bind fun requestedFileSystem =>
      intersectFileSystem compile requestedFileSystem
        (granted.fileSystem.getD ⟨[], none⟩) context).filter fun fileSystem =>
          !fileSystem.entries.isEmpty

/-! ## What materialising keeps -/

def NoGlobs : Prop :=
  ∀ entry ∈ entries, entry.isGlob = false

instance (entries : List FileSystemSandboxEntry) : Decidable (NoGlobs entries) :=
  inferInstanceAs (Decidable (∀ entry ∈ entries, entry.isGlob = false))

/-- The entry stands for at most one path, the one used in comparisons. -/
def ResolvesOnce (entry : FileSystemSandboxEntry) : Prop :=
  entry.path.resolve context = (resolvePermissionPath entry.path context).toList

/-- What is known of the entries that replace an entry. -/
structure Replaces (entries : List FileSystemSandboxEntry)
    (resolved : List (PathUri × FileSystemAccessMode)) : Prop where
  resolve : entries.flatMap (·.resolve context) = resolved
  once : ∀ entry ∈ entries, ResolvesOnce context entry
  noGlobs : NoGlobs entries

variable {context} {entry : FileSystemSandboxEntry}
  {path : PathUri} {mode : FileSystemAccessMode}

section Materialize

theorem replaces_singleton (honce : ResolvesOnce context entry) (hglob : entry.isGlob = false) :
    Replaces context [entry] (entry.resolve context) where
  resolve := by simp
  once := by simpa using honce
  noGlobs := by simpa [NoGlobs] using hglob

theorem replaces_paths (paths : List PathUri) :
    Replaces context (paths.map (materializedPathEntry entry)) ((paths.filter fun path =>
        path.inferPathConvention = context.cwd.inferPathConvention).map
          fun path => (path, entry.access)) where
  resolve := by
    induction paths with
    | nil => rfl
    | cons path paths ih =>
      rw [map_cons, flatMap_cons, ih]
      simp only [resolve, materializedPathEntry, FileSystemPath.resolve, filter_cons]
      split <;> simp
  once := by
    exact forall_mem_map.mpr fun _ _ => rfl
  noGlobs := by
    exact forall_mem_map.mpr fun _ _ => rfl

variable {entries : List FileSystemSandboxEntry}

theorem materializeProjectRoots_eq {subpath : Option Text} {roots : List PathUri}
    (hpath : entry.path = .special (.projectRoots subpath))
    (h : materializeProjectRoots entry context roots = some entries) :
    entries = (roots.filterMap (projectRootPath subpath)).map (materializedPathEntry entry) := by
  induction roots generalizing entries with
  | nil => simpa [materializeProjectRoots] using h.symm
  | cons root roots ih =>
    have hresolve :
        resolvePermissionPath entry.path { context with workspaceRoots := [root] } =
          projectRootPath subpath root := by
      rw [hpath]
      rfl
    rw [filterMap_cons, ← hresolve]
    simp only [materializeProjectRoots] at h
    cases hone : resolvePermissionPath entry.path { context with workspaceRoots := [root] } with
    | none =>
      simp only [hone] at h ⊢
      split_ifs at h
      exact ih h
    | some path =>
      simp only [hone, Option.map_eq_some_iff] at h ⊢
      obtain ⟨rest, hrest, rfl⟩ := h
      rw [map_cons, ← ih hrest]

/-- Writing an entry out as paths does not change what it resolves to. -/
theorem materializeEntry_replaces
    (hglob : entry.isGlob = false) (h : materializeEntry entry context = some entries) :
    Replaces context entries (entry.resolve context) := by
  obtain ⟨path, access, missing⟩ := entry
  match path with
  | .special .root =>
    simp only [materializeEntry, Option.map_eq_some_iff] at h
    obtain ⟨root, -, rfl⟩ := h
    exact replaces_singleton rfl hglob
  | .path _ | .special .minimal | .special (.unknown _ _) =>
    obtain rfl : [_] = entries := Option.some.inj h
    exact replaces_singleton rfl hglob
  | .special .slashTmp =>
    obtain rfl : [_] = entries := Option.some.inj h
    refine replaces_singleton ?_ hglob
    simp only [ResolvesOnce, FileSystemPath.resolve, resolvePermissionPath]
    split <;> rfl
  | .special .tmpdir =>
    simp only [materializeEntry] at h
    cases hdirectories : context.temporaryDirectories with
    | none =>
      simp only [hdirectories] at h
      split_ifs at h
      obtain rfl := Option.some.inj h
      refine replaces_singleton ?_ hglob
      simp [ResolvesOnce, FileSystemPath.resolve, resolvePermissionPath, hdirectories]
    | some directories =>
      simp only [hdirectories, Option.some.injEq] at h
      subst h
      simp only [resolve, FileSystemPath.resolve, hdirectories]
      exact replaces_paths directories
  | .special (.projectRoots subpath) =>
    simp only [materializeEntry] at h
    split at h
    · cases h
    next resolved hresolved =>
      split at h
      · cases h
      · obtain rfl := Option.some.inj h
        rw [materializeProjectRoots_eq rfl hresolved]
        exact replaces_paths _

theorem materialize_replaces {source : List FileSystemSandboxEntry} (hglobs : NoGlobs source)
    (h : materializeContextDependentEntries context source = some entries) :
    Replaces context entries (source.flatMap (·.resolve context)) := by
  induction source generalizing entries with
  | nil =>
    obtain rfl : [] = entries := Option.some.inj h
    exact ⟨rfl, by simp, by simp [NoGlobs]⟩
  | cons first rest ih =>
    rw [NoGlobs, forall_mem_cons] at hglobs
    simp only [materializeContextDependentEntries] at h
    split at h
    · cases h
    next firstEntries hfirst =>
      obtain ⟨restEntries, hrest, rfl⟩ := Option.map_eq_some_iff.mp h
      have hhead := materializeEntry_replaces hglobs.1 hfirst
      have htail := ih hglobs.2 hrest
      refine ⟨?_, ?_, ?_⟩
      · rw [flatMap_append, hhead.resolve, htail.resolve, flatMap_cons]
      · exact forall_mem_append.mpr ⟨hhead.once, htail.once⟩
      · exact forall_mem_append.mpr ⟨hhead.noGlobs, htail.noGlobs⟩

end Materialize

/-! ## Collecting entries -/

theorem FileSystemSandboxEntry.resolve_eq_of_sameEntry
    {other : FileSystemSandboxEntry} (hposix : context.HasPosixCwd)
    (h : entry.sameEntry other) : entry.resolve context = other.resolve context := by
  obtain ⟨path, access, missing⟩ := entry
  obtain ⟨otherPath, otherAccess, otherMissing⟩ := other
  simp only [sameEntry, Bool.and_eq_true, decide_eq_true_eq] at h
  obtain ⟨⟨hpath, rfl⟩, -⟩ := h
  match path, otherPath, hpath with
  | .path uri, .path otherUri, hpath =>
    -- Distinct spellings of one path belong to the other convention.
    by_cases huri : uri.inferPathConvention = some .posix
    · rw [(sameUri_iff_of_posix huri).mp hpath]
      rfl
    · have hother : otherUri.inferPathConvention ≠ some .posix := by
        intro hother
        simp only [FileSystemPath.samePath] at hpath
        rw [sameUri_comm] at hpath
        rw [(sameUri_iff_of_posix hother).mp hpath] at hother
        exact huri hother
      simp [resolve, FileSystemPath.resolve, hposix, huri, hother]
  | .globPattern pattern, .globPattern otherPattern, hpath => rfl
  | .special value, .special otherValue, hpath =>
    rw [of_decide_eq_true hpath]
    rfl

variable {added entries : List FileSystemSandboxEntry}

theorem mem_of_mem_foldl_pushNew
    (h : entry ∈ added.foldl pushNew entries) : entry ∈ entries ∨ entry ∈ added := by
  induction added generalizing entries with
  | nil => exact .inl h
  | cons first added ih =>
    rcases ih h with hentries | hadded
    · unfold pushNew at hentries
      split at hentries
      · exact .inl hentries
      · rcases mem_append.mp hentries with hold | hnew
        · exact .inl hold
        · exact .inr (by simpa using .inl (mem_singleton.mp hnew))
    · exact .inr (mem_cons_of_mem _ hadded)

theorem subset_foldl_pushNew (entries added : List FileSystemSandboxEntry) :
    entries ⊆ added.foldl pushNew entries := by
  refine foldlRecOn added _ (List.Subset.refl _) fun kept hkept new _ => ?_
  unfold pushNew
  split
  · exact hkept
  · exact subset_append_of_subset_left _ hkept

theorem resolve_subset_foldl_pushNew (hposix : context.HasPosixCwd) (h : entry ∈ added) :
    entry.resolve context ⊆ (added.foldl pushNew entries).flatMap (·.resolve context) := by
  induction added generalizing entries with
  | nil => cases h
  | cons first added ih =>
    rcases mem_cons.mp h with rfl | hrest
    · intro resolved hresolved
      have hkept : ∃ kept ∈ pushNew entries entry,
          kept.resolve context = entry.resolve context := by
        unfold pushNew
        split
        next hsame =>
          obtain ⟨kept, hkept, hsame⟩ := any_eq_true.mp hsame
          exact ⟨kept, hkept, resolve_eq_of_sameEntry hposix hsame⟩
        · exact ⟨entry, by simp, rfl⟩
      obtain ⟨kept, hmem, hresolve⟩ := hkept
      refine mem_flatMap.mpr ⟨kept, subset_foldl_pushNew _ added hmem, ?_⟩
      rw [hresolve]
      exact hresolved
    · exact ih hrest

/-- A granted path that the request covers at the path itself. -/
structure IsAccepted (requested granted : FileSystemSandboxPolicy)
    (context : FileSystemSandboxPolicyContext) (path : PathUri)
    (mode : FileSystemAccessMode) : Prop where
  mem : (path, mode) ∈ granted.resolvedEntries context
  covered : accessCovers (requested.resolveAccess path context) mode = true
  notDenied : ∀ denied, (denied, .deny) ∈ requested.resolvedEntries context →
    denied.components ≠ [] → path.startsWith denied = false

/-- One of the sides denies the path. -/
def IsDenied (requested granted : FileSystemSandboxPolicy)
    (context : FileSystemSandboxPolicyContext) (path : PathUri) : Prop :=
  (path, .deny) ∈ requested.resolvedEntries context ∨
    (path, .deny) ∈ granted.resolvedEntries context

theorem canRead_of_accessCovers {requested granted : FileSystemAccessMode}
    (h : accessCovers requested granted) : requested.canRead ∧ granted.canRead := by
  cases requested <;> cases granted <;> first | exact ⟨rfl, rfl⟩ | cases h

section Accept

variable {policy : FileSystemSandboxPolicy}

theorem denyReadGlobs_of_noGlobs
    (h : NoGlobs policy.entries) : policy.denyReadGlobs context = some [] := by
  have hnone : (policy.entries.filterMap fun entry =>
      match entry.path with
      | .globPattern pattern => if entry.access = .deny then some pattern else none
      | _ => none) = [] := by
    rw [filterMap_eq_nil_iff]
    intro entry hentry
    have hglob := h entry hentry
    unfold isGlob at hglob
    split
    next pattern hpath => simp [hpath] at hglob
    · rfl
  unfold denyReadGlobs
  rw [hnone]
  rfl

theorem coincides_root_iff (hcwd : context.cwd.IsPlain) (hpath : path.IsPlain) :
    coincides path context.cwd.rootAncestor ↔ path.components = [] := by
  obtain ⟨hroot, hempty⟩ := hcwd.rootAncestor_spec
  rw [coincides, Bool.and_eq_true, hpath.startsWith_iff hroot, hroot.startsWith_iff hpath, hempty]
  simp

/-- The matcher denies what lies at or below a denied root. -/
theorem readDenied_iff {compile : GlobCompiler}
    (hglobs : NoGlobs policy.entries) (hcwd : context.cwd.IsPlain) (hpath : path.IsPlain) :
    (policy.readDenyMatcher compile context).any (matchesPreparedReadDeny path context) ↔
      ∃ denied, (denied, .deny) ∈ policy.resolvedEntries context ∧
        denied.components ≠ [] ∧ path.startsWith denied := by
  have hroots : ∀ prepared, prepared = policy.prepareDenyReadMatcher compile context →
      (matchesPreparedReadDeny path context prepared ↔
        ∃ denied, (denied, .deny) ∈ policy.resolvedEntries context ∧
          denied.components ≠ [] ∧ path.startsWith denied) := by
    rintro prepared rfl
    simp only [matchesPreparedReadDeny, prepareDenyReadMatcher, denyReadGlobs_of_noGlobs hglobs,
      hcwd.posix, hpath.posix, hpath.lexicalDepth_eq, hcwd.lexicalDepth_eq,
      fileSystemRoot_of_plain hcwd, ne_eq, not_true_eq_false, Option.isNone_some,
      Bool.false_eq_true, if_false, any_nil, filterMap_nil, Bool.or_false, any_map, any_filter,
      any_eq_true, Option.any_some, Bool.and_eq_true, decide_eq_true_eq, Bool.not_eq_true']
    constructor
    · rintro ⟨⟨denied, mode⟩, hmem, ⟨rfl, hroot⟩, hbelow⟩
      refine ⟨denied, hmem, ?_, hbelow⟩
      intro hempty
      rw [(coincides_root_iff hcwd (hpath.of_startsWith hbelow)).mpr hempty] at hroot
      cases hroot
    · rintro ⟨denied, hmem, hempty, hbelow⟩
      refine ⟨(denied, .deny), hmem, ⟨rfl, ?_⟩, hbelow⟩
      rw [← Bool.not_eq_true, coincides_root_iff hcwd (hpath.of_startsWith hbelow)]
      exact hempty
  unfold readDenyMatcher
  split
  · exact hroots _ rfl
  next hdeny =>
    simp only [Option.any_none, Bool.false_eq_true, false_iff]
    rintro ⟨denied, hmem, -, -⟩
    obtain ⟨entry, hentry, hresolved⟩ := mem_flatMap.mp hmem
    obtain ⟨uri, -, huri⟩ := mem_map.mp hresolved
    apply hdeny
    rw [any_eq_true]
    exact ⟨entry, hentry, by simpa using congrArg Prod.snd huri⟩

theorem FileSystemSandboxPolicy.resolveAccess_congr {other : FileSystemSandboxPolicy}
    (hkind : policy.kind = other.kind)
    (hresolved : policy.resolvedEntries context = other.resolvedEntries context) :
    policy.resolveAccess path context = other.resolveAccess path context := by
  unfold resolveAccess
  rw [hkind, hresolved]

theorem FileSystemSandboxPolicy.mem_rules_of_mem (hposix : context.HasPosixCwd)
    (hmem : (path, mode) ∈ policy.resolvedEntries context) (hplain : path.IsPlain) :
    (path.components, mode) ∈ policy.rules context :=
  (mem_rules hposix).mpr ⟨path, hmem, hplain, rfl⟩

theorem ResolvesOnce.spec (honce : ResolvesOnce context entry)
    (h : (path, mode) ∈ entry.resolve context) :
    resolvePermissionPath entry.path context = some path ∧ mode = entry.access ∧
      path.inferPathConvention = context.cwd.inferPathConvention := by
  obtain ⟨uri, huri, heq⟩ := mem_map.mp h
  obtain ⟨rfl, rfl⟩ := Prod.mk.inj heq
  obtain ⟨hmem, hconvention⟩ := mem_filter.mp huri
  rw [honce, Option.mem_toList] at hmem
  exact ⟨hmem, rfl, of_decide_eq_true hconvention⟩

/-- A granted entry is accepted if the request covers its path. -/
theorem withinRequest_iff {compile : GlobCompiler} {requested : FileSystemPermissions}
    (hposix : context.HasPosixCwd)
    (hkind : policy.kind = .restricted) (hglobs : NoGlobs policy.entries)
    (honce : ResolvesOnce context entry) (hpath : (path, mode) ∈ entry.resolve context) :
    grantedFileSystemEntryWithinRequest requested policy
        (policy.readDenyMatcher compile context) entry context ↔
      accessCovers (policy.resolveAccess path context) mode ∧
        ∀ denied, (denied, .deny) ∈ policy.resolvedEntries context →
          denied.components ≠ [] → path.startsWith denied = false := by
  obtain ⟨hresolve, rfl, hconvention⟩ := honce.spec hpath
  by_cases hcovers : accessCovers (policy.resolveAccess path context) entry.access
  · obtain ⟨hrequested, hgranted⟩ := canRead_of_accessCovers hcovers
    obtain ⟨root, hgrants⟩ := exists_grants hkind hposix (canRead_iff.mp hrequested)
    have hdenied := @readDenied_iff context path policy compile hglobs
      hgrants.plainCwd hgrants.plainPath
    simp only [grantedFileSystemEntryWithinRequest, hgranted, hposix, hresolve, hcovers,
      hconvention, Bool.not_true, ne_eq, not_true_eq_false, decide_false, Bool.and_false,
      Bool.or_self, if_false, Option.some.injEq, reduceCtorEq, Bool.false_and, true_and]
    split
    next hmatch =>
      obtain ⟨denied, hmem, hempty, hbelow⟩ := hdenied.mp hmatch
      simp only [Bool.false_eq_true, false_iff, not_forall]
      exact ⟨denied, hmem, hempty, by simp [hbelow]⟩
    next hmatch =>
      simp only [true_iff]
      intro denied hmem hempty
      by_contra hbelow
      exact hmatch (hdenied.mpr ⟨denied, hmem, hempty, Bool.eq_true_of_not_eq_false hbelow⟩)
  · refine iff_of_false ?_ (fun h => hcovers h.1)
    unfold grantedFileSystemEntryWithinRequest
    rw [hresolve]
    split
    · simp
    · split
      · simp
      · dsimp only
        split
        · simp
        · exact hcovers

end Accept

/-! ## The entries of the intersection -/

variable {denied : PathUri}

section Result

variable (compile : GlobCompiler) {requested granted : FileSystemPermissions}
  {requestedEntries grantedEntries : List FileSystemSandboxEntry}

variable (context requested granted requestedEntries grantedEntries) in
/-- What the proofs about the result start from: a POSIX working directory and
materialised entries of both sides. -/
structure Materialized : Prop where
  posix : context.cwd.inferPathConvention = some .posix
  requested : Replaces context requestedEntries (requested.policy.resolvedEntries context)
  granted : Replaces context grantedEntries (granted.policy.resolvedEntries context)

variable (requested granted requestedEntries grantedEntries) in
def resultPolicy (context : FileSystemSandboxPolicyContext) : FileSystemSandboxPolicy :=
  .restricted (intersectEntries compile requested granted requestedEntries grantedEntries
    context).entries

variable (requested requestedEntries grantedEntries) in
def acceptedEntries (context : FileSystemSandboxPolicyContext) : List FileSystemSandboxEntry :=
  (grantedEntries.filter fun entry =>
    grantedFileSystemEntryWithinRequest requested
      (.restricted requestedEntries)
      ((restricted requestedEntries).readDenyMatcher compile context) entry context).foldl
    pushNew []

theorem Materialized.accepted_iff
    (h : Materialized context requested granted requestedEntries grantedEntries)
    (hentry : entry ∈ grantedEntries) (hpath : (path, mode) ∈ entry.resolve context) :
    grantedFileSystemEntryWithinRequest requested (.restricted requestedEntries)
        ((restricted requestedEntries).readDenyMatcher compile context) entry context ↔
      IsAccepted requested.policy granted.policy context path mode := by
  have hresolved : (restricted requestedEntries).resolvedEntries context =
      requested.policy.resolvedEntries context := h.requested.resolve
  have hmem : (path, mode) ∈ granted.policy.resolvedEntries context := by
    rw [← h.granted.resolve]
    exact mem_flatMap.mpr ⟨entry, hentry, hpath⟩
  have haccess : (restricted requestedEntries).resolveAccess path context =
      requested.policy.resolveAccess path context := resolveAccess_congr rfl hresolved
  rw [withinRequest_iff h.posix rfl h.requested.noGlobs (h.granted.once entry hentry) hpath,
    hresolved, haccess]
  exact ⟨fun ⟨hcovered, hdenied⟩ => ⟨hmem, hcovered, hdenied⟩,
    fun haccepted => ⟨haccepted.covered, haccepted.notDenied⟩⟩

theorem mem_acceptedEntries
    (h : entry ∈ acceptedEntries compile requested requestedEntries grantedEntries context) :
    entry ∈ grantedEntries ∧
      grantedFileSystemEntryWithinRequest requested (.restricted requestedEntries)
        ((restricted requestedEntries).readDenyMatcher compile context) entry context := by
  rcases mem_of_mem_foldl_pushNew h with hnil | hmem
  · cases hnil
  · exact mem_filter.mp hmem

section

variable (h : Materialized context requested granted requestedEntries grantedEntries)
include h

section

variable (haccepted : IsAccepted requested.policy granted.policy context path mode)
include haccepted

theorem Materialized.mem_accepted :
    ∃ entry ∈ acceptedEntries compile requested requestedEntries grantedEntries context,
      (path, mode) ∈ entry.resolve context := by
  have hmem := haccepted.mem
  rw [← h.granted.resolve] at hmem
  obtain ⟨entry, hentry, hpath⟩ := mem_flatMap.mp hmem
  have hwithin := (h.accepted_iff compile hentry hpath).mpr haccepted
  exact mem_flatMap.mp (resolve_subset_foldl_pushNew h.posix
    (mem_filter.mpr ⟨hentry, hwithin⟩) hpath)

theorem Materialized.constrains (honce : ResolvesOnce context entry) (hglob : entry.isGlob = false)
    (hdenied : (denied, .deny) ∈ entry.resolve context)
    (hoverlap : pathsOverlap denied path) :
    denyEntryConstrainsAcceptedGrant entry
      (acceptedEntries compile requested requestedEntries grantedEntries context)
      context := by
  obtain ⟨grant, hgrant, hpath⟩ := h.mem_accepted compile haccepted
  have hspec := (h.granted.once grant (mem_acceptedEntries compile hgrant).1).spec hpath
  have hdeniedPath := (honce.spec hdenied).1
  have hreads : grant.access.canRead := by
    rw [← hspec.2.1]
    exact (canRead_of_accessCovers haccepted.covered).2
  rw [denyEntryConstrainsAcceptedGrant, any_eq_true]
  refine ⟨grant, mem_filter.mpr ⟨hgrant, hreads⟩, ?_⟩
  split
  · rfl
  · rw [hspec.1]
    dsimp only
    split
    next pattern hpattern => simp [isGlob, hpattern] at hglob
    · simp [hdeniedPath, hoverlap]

end

theorem Materialized.mem_result
    (hmem : (path, mode) ∈ (resultPolicy compile requested granted requestedEntries
      grantedEntries context).resolvedEntries context) :
    IsAccepted requested.policy granted.policy context path mode ∨
      mode = .deny ∧ IsDenied requested.policy granted.policy context path := by
  obtain ⟨entry, hentry, hpath⟩ := mem_flatMap.mp hmem
  have hdeny : ∀ source accepted, entry ∈ constrainingDenyEntries source accepted context →
      mode = .deny ∧ (path, .deny) ∈ source.flatMap (·.resolve context) := by
    intro source accepted hsource
    obtain ⟨hsource, hdeny⟩ := mem_filter.mp hsource
    obtain ⟨uri, -, heq⟩ := mem_map.mp hpath
    simp only [Bool.and_eq_true, decide_eq_true_eq] at hdeny
    obtain rfl : .deny = mode := by rw [← hdeny.1, ← (Prod.mk.inj heq).2]
    exact ⟨rfl, mem_flatMap.mpr ⟨entry, hsource, hpath⟩⟩
  rcases mem_of_mem_foldl_pushNew hentry with hentry | hgranted
  · rcases mem_of_mem_foldl_pushNew hentry with haccepted | hrequested
    · obtain ⟨hgranted, hwithin⟩ := mem_acceptedEntries compile haccepted
      exact .inl ((h.accepted_iff compile hgranted hpath).mp hwithin)
    · obtain ⟨rfl, hresolved⟩ := hdeny _ _ hrequested
      rw [h.requested.resolve] at hresolved
      exact .inr ⟨rfl, .inl hresolved⟩
  · obtain ⟨rfl, hresolved⟩ := hdeny _ _ hgranted
    rw [h.granted.resolve] at hresolved
    exact .inr ⟨rfl, .inr hresolved⟩

variable (haccepted : IsAccepted requested.policy granted.policy context path mode)
include haccepted

theorem Materialized.accepted_mem_result :
    (path, mode) ∈ (resultPolicy compile requested granted requestedEntries grantedEntries
      context).resolvedEntries context := by
  obtain ⟨entry, hentry, hpath⟩ := h.mem_accepted compile haccepted
  refine mem_flatMap.mpr ⟨entry, ?_, hpath⟩
  exact subset_foldl_pushNew _ _ (subset_foldl_pushNew _ _ hentry)

theorem Materialized.denied_mem_result
    (hdenied : IsDenied requested.policy granted.policy context denied)
    (hoverlap : pathsOverlap denied path) :
    (denied, .deny) ∈ (resultPolicy compile requested granted requestedEntries
      grantedEntries context).resolvedEntries context := by
  have hconstraining : ∀ source : List FileSystemSandboxEntry, NoGlobs source →
      (∀ entry ∈ source, ResolvesOnce context entry) →
      (denied, .deny) ∈ source.flatMap (·.resolve context) →
      ∃ entry ∈ constrainingDenyEntries source
          (acceptedEntries compile requested requestedEntries grantedEntries context)
          context, (denied, .deny) ∈ entry.resolve context := by
    intro source hglobs honce hmem
    obtain ⟨entry, hentry, hpath⟩ := mem_flatMap.mp hmem
    refine ⟨entry, mem_filter.mpr ⟨hentry, ?_⟩, hpath⟩
    rw [Bool.and_eq_true, decide_eq_true_eq]
    exact ⟨((honce entry hentry).spec hpath).2.1.symm,
      h.constrains compile haccepted (honce entry hentry) (hglobs entry hentry) hpath hoverlap⟩
  rcases hdenied with hrequested | hgranted
  · rw [← h.requested.resolve] at hrequested
    obtain ⟨entry, hentry, hpath⟩ := hconstraining requestedEntries h.requested.noGlobs
      h.requested.once hrequested
    obtain ⟨kept, hkept, hkeptPath⟩ := mem_flatMap.mp
      (resolve_subset_foldl_pushNew h.posix hentry hpath)
    exact mem_flatMap.mpr ⟨kept, subset_foldl_pushNew _ _ hkept, hkeptPath⟩
  · rw [← h.granted.resolve] at hgranted
    obtain ⟨entry, hentry, hpath⟩ := hconstraining grantedEntries h.granted.noGlobs
      h.granted.once hgranted
    exact resolve_subset_foldl_pushNew h.posix hentry hpath

end

/-- The entries of the intersection in terms of those of both sides. -/
structure Intersects (context : FileSystemSandboxPolicyContext)
    (requested granted result : FileSystemSandboxPolicy) : Prop where
  posix : context.cwd.inferPathConvention = some .posix
  requestedKind : requested.kind = .restricted
  grantedKind : granted.kind = .restricted
  resultKind : result.kind = .restricted
  mem : ∀ path mode, (path, mode) ∈ result.resolvedEntries context →
    IsAccepted requested granted context path mode ∨
      mode = .deny ∧ IsDenied requested granted context path
  accepted : ∀ path mode, IsAccepted requested granted context path mode →
    (path, mode) ∈ result.resolvedEntries context
  denied : ∀ path mode denied, IsAccepted requested granted context path mode →
    IsDenied requested granted context denied → pathsOverlap denied path = true →
    (denied, .deny) ∈ result.resolvedEntries context

/-- What the source computes has the rules of an intersection. -/
theorem Materialized.intersects
    (h : Materialized context requested granted requestedEntries grantedEntries) :
    Intersects context requested.policy granted.policy
      (resultPolicy compile requested granted requestedEntries grantedEntries context) where
  posix := h.posix
  requestedKind := rfl
  grantedKind := rfl
  resultKind := rfl
  mem _ _ := h.mem_result compile
  accepted _ _ := h.accepted_mem_result compile
  denied _ _ _ := h.denied_mem_result compile

end Result

/-- Nothing that the request or the grant forbids below an accepted path is
lost. -/
structure LimitsKept (requested granted : FileSystemSandboxPolicy)
    (context : FileSystemSandboxPolicyContext) : Prop where
  /-- A requested path that is read-only stays so: between it and an accepted
  write grant above it there is another accepted grant or a `deny` entry. -/
  readOnly : granted.IsComparable context →
    ∀ root path mode, IsAccepted requested granted context root .write →
      (path, mode) ∈ requested.resolvedEntries context →
      requested.resolveAccess path context = .read →
      path.startsWith root = true → root.startsWith path = false →
      (∃ between mode', IsAccepted requested granted context between mode' ∧
        path.startsWith between = true ∧ between.startsWith root = true ∧
        root.startsWith between = false) ∨
      ∃ denied, IsDenied requested granted context denied ∧
        denied.startsWith root = true ∧ path.startsWith denied = true
  /-- A grant with an ambiguous path gives nothing, so nothing may be accepted
  from it, unless the ambiguous path is denied and therefore kept. -/
  ambiguous : (∃ entry ∈ granted.resolvedEntries context, isAmbiguous entry.1 = true) →
    (∀ entry ∈ granted.resolvedEntries context, isAmbiguous entry.1 = true → entry.2 ≠ .deny) →
    ∀ root mode, IsAccepted requested granted context root mode →
      ∃ denied, (denied, .deny) ∈ granted.resolvedEntries context ∧ coincides denied root = true

section Within

variable {requested granted result : FileSystemSandboxPolicy} {root : PathUri}

variable (context requested granted result) in
/-- An accepted path that decides a path in the result. -/
structure DecidesResult (path root : PathUri) (mode : FileSystemAccessMode) : Prop where
  plainCwd : context.cwd.IsPlain
  plainPath : path.IsPlain
  plainRoot : root.IsPlain
  comparable : result.IsComparable context
  accepted : IsAccepted requested granted context root mode
  decides : Decides (result.rules context) path.components root.components mode

/-- Access in the result comes from an accepted entry. -/
theorem Intersects.exists_decidesResult (h : Intersects context requested granted result)
    (hread : (result.resolveAccess path context).canRead) :
    ∃ root, DecidesResult context requested granted result path root
      (result.resolveAccess path context) := by
  obtain ⟨components, hgrants⟩ := exists_grants h.resultKind h.posix (canRead_iff.mp hread)
  obtain ⟨root, hmem, hplain, rfl⟩ := (mem_rules h.posix).mp hgrants.decides.mem
  rcases h.mem root _ hmem with haccepted | ⟨hdeny, -⟩
  · exact ⟨root, hgrants.plainCwd, hgrants.plainPath, hplain, hgrants.comparable,
      haccepted, hgrants.decides⟩
  · exact absurd hdeny (canRead_iff.mp hread)

theorem DecidesResult.ne_deny
    (hdecides : DecidesResult context requested granted result path root mode) : mode ≠ .deny :=
  canRead_iff.mp (canRead_of_accessCovers hdecides.accepted.covered).2

section

variable (h : Intersects context requested granted result)
include h

/-- No denied root lies between the deciding root and the path. -/
theorem Intersects.no_denied_between
    (hdecides : DecidesResult context requested granted result path root mode)
    (hdenied : IsDenied requested granted context denied) (hplain : denied.IsPlain)
    (hroot : root.components <+: denied.components)
    (hpath : denied.components <+: path.components) : False := by
  have hoverlap : pathsOverlap denied root := by
    rw [pathsOverlap, hplain.overlaps_eq hdecides.plainRoot,
      (hplain.startsWith_iff hdecides.plainRoot).mpr hroot]
    rfl
  have hmem := h.denied root mode denied hdecides.accepted hdenied hoverlap
  have hrule := mem_rules_of_mem h.posix hmem hplain
  have hequal : denied.components = root.components :=
    prefix_antisymm (hdecides.decides.deepest _ hrule hpath) hroot
  have hle := hdecides.decides.strongest _ hrule hequal
  exact hdecides.ne_deny (le_antisymm (le_deny _) hle)

theorem Intersects.requested_grants (haccepted : IsAccepted requested granted context root mode) :
    ∃ components, requested.Grants root context components :=
  exists_grants h.requestedKind h.posix
    (canRead_iff.mp (canRead_of_accessCovers haccepted.covered).1)

variable {below : PathUri}

section

variable (hdecides : DecidesResult context requested granted result path root mode)
include hdecides

/-- Below an accepted path the request decides as at the path, or by an entry in
between that does not deny. -/
theorem Intersects.requested_below
    (hbelow : below.IsPlain) (hroot : root.components <+: below.components)
    (hpath : below.components <+: path.components) :
    requested.resolveAccess below context = requested.resolveAccess root context ∨
      ∃ entry : PathUri, entry.IsPlain ∧ (entry, requested.resolveAccess below context) ∈
          requested.resolvedEntries context ∧
        Decides (requested.rules context) below.components entry.components
          (requested.resolveAccess below context) ∧
        root.components <+: entry.components ∧ entry.components ≠ root.components ∧
        requested.resolveAccess below context ≠ .deny := by
  obtain ⟨top, hgrants⟩ := h.requested_grants hdecides.accepted
  rcases resolveAccess_spec h.requestedKind hdecides.plainCwd
      hbelow hgrants.comparable with ⟨components, hentry⟩ | ⟨-, hnone⟩
  · obtain ⟨entry, hmem, hplain, rfl⟩ := (mem_rules h.posix).mp hentry.mem
    by_cases habove : entry.components <+: root.components
    · exact .inl ((hentry.restrict habove hroot).level_unique hgrants.decides)
    · have hunder : root.components <+: entry.components := by
        refine Or.resolve_left ?_ habove
        exact prefix_or_prefix_of_prefix hentry.above hroot
      have hne : entry.components ≠ root.components := by
        intro hequal
        rw [hequal] at habove
        exact habove prefix_rfl
      refine .inr ⟨entry, hplain, hmem, hentry, hunder, hne, ?_⟩
      intro hdeny
      rw [hdeny] at hmem
      exact h.no_denied_between hdecides (.inl hmem) hplain hunder (hentry.above.trans hpath)
  · exact absurd (hgrants.decides.above.trans hroot) (hnone _ hgrants.decides.mem)

/-- What the result lets read, the request asks for. -/
theorem Intersects.requested_canRead
    (hbelow : below.IsPlain) (hroot : root.components <+: below.components)
    (hpath : below.components <+: path.components) :
    (requested.resolveAccess below context).canRead := by
  rcases h.requested_below hdecides hbelow hroot hpath with hsame | ⟨-, -, -, -, -, -, hne⟩
  · rw [hsame]
    exact (canRead_of_accessCovers hdecides.accepted.covered).1
  · exact canRead_iff.mpr hne

theorem Intersects.granted_below (hcomparable : granted.IsComparable context) :
    ∃ entry : PathUri, entry.IsPlain ∧
      (entry, granted.resolveAccess path context) ∈ granted.resolvedEntries context ∧
      Decides (granted.rules context) path.components entry.components
        (granted.resolveAccess path context) ∧
      root.components <+: entry.components ∧
      granted.resolveAccess path context ≠ .deny := by
  have hrule := mem_rules_of_mem h.posix hdecides.accepted.mem hdecides.plainRoot
  rcases resolveAccess_spec h.grantedKind hdecides.plainCwd
      hdecides.plainPath hcomparable with ⟨components, hentry⟩ | ⟨-, hnone⟩
  · obtain ⟨entry, hmem, hplain, rfl⟩ := (mem_rules h.posix).mp hentry.mem
    have hunder := hentry.deepest _ hrule hdecides.decides.above
    refine ⟨entry, hplain, hmem, hentry, hunder, ?_⟩
    intro hdeny
    rw [hdeny] at hmem
    exact h.no_denied_between hdecides (.inr hmem) hplain hunder hentry.above
  · exact absurd hdecides.decides.above (hnone _ hrule)

theorem Intersects.accepts_below {entry : PathUri}
    (hmem : (entry, .read) ∈ granted.resolvedEntries context) (hplain : entry.IsPlain)
    (hroot : root.components <+: entry.components) (hpath : entry.components <+: path.components) :
    IsAccepted requested granted context entry .read where
  mem := hmem
  covered := h.requested_canRead hdecides hplain hroot hpath
  notDenied := by
    intro denied hdenied hne
    by_contra hbelow
    have hbelow := Bool.eq_true_of_not_eq_false hbelow
    have hdeniedPlain := hplain.of_startsWith hbelow
    have habove := (hplain.startsWith_iff hdeniedPlain).mp hbelow
    rcases prefix_or_prefix_of_prefix habove hroot with hover | hunder
    · have hcontained := (hdecides.plainRoot.startsWith_iff hdeniedPlain).mpr hover
      rw [hdecides.accepted.notDenied denied hdenied hne] at hcontained
      cases hcontained
    · exact h.no_denied_between hdecides (.inl hdenied) hdeniedPlain hunder (habove.trans hpath)

end

/-- What the result lets write, the grant lets write. -/
theorem Intersects.granted_canWrite
    (hdecides : DecidesResult context requested granted result path root .write)
    (hcomparable : granted.IsComparable context) :
    (granted.resolveAccess path context).canWrite := by
  obtain ⟨entry, hplain, hmem, hentry, hunder, hne⟩ := h.granted_below hdecides hcomparable
  cases haccess : granted.resolveAccess path context with
  | write => rfl
  | deny => exact absurd haccess hne
  | read =>
    rw [haccess] at hmem hentry
    have haccepted := h.accepts_below hdecides hmem hplain hunder hentry.above
    have hrule := mem_rules_of_mem h.posix (h.accepted entry .read haccepted) hplain
    have hequal : root.components = entry.components :=
      prefix_antisymm hunder (hdecides.decides.deepest _ hrule hentry.above)
    have hwrite := mem_rules_of_mem h.posix hdecides.accepted.mem hdecides.plainRoot
    have hle : write ≤ .read := hentry.strongest _ hwrite hequal
    exact absurd hle (by decide)

/-- What the result lets write, the request asks for. -/
theorem Intersects.requested_canWrite (hlimits : LimitsKept requested granted context)
    (hdecides : DecidesResult context requested granted result path root .write)
    (hcomparable : granted.IsComparable context) :
    (requested.resolveAccess path context).canWrite := by
  rcases h.requested_below hdecides hdecides.plainPath hdecides.decides.above
      prefix_rfl with hsame | ⟨entry, hplain, hmem, hentry, hunder, hne, hdeny⟩
  · rw [hsame]
    exact hdecides.accepted.covered
  · cases haccess : requested.resolveAccess path context with
    | write => rfl
    | deny => exact absurd haccess hdeny
    | read =>
      rw [haccess] at hmem hentry
      have hread : requested.resolveAccess entry context = .read := by
        obtain ⟨top, hgrants⟩ := h.requested_grants hdecides.accepted
        exact resolveAccess_of_decides h.requestedKind hdecides.plainCwd hplain hgrants.comparable
          (hentry.restrict prefix_rfl hentry.above)
      have hbelow : entry.startsWith root := (hplain.startsWith_iff hdecides.plainRoot).mpr hunder
      have hstrict : root.startsWith entry = false := by
        rw [← Bool.not_eq_true, hdecides.plainRoot.startsWith_iff hplain]
        exact fun habove => hne (prefix_antisymm habove hunder)
      rcases hlimits.readOnly hcomparable root entry .read hdecides.accepted hmem hread
          hbelow hstrict with
        ⟨between, mode', haccepted, hentryBelow, hrootAbove, hbetween⟩ |
        ⟨denied, hdenied, hrootAbove, hentryBelow⟩
      · have hbetweenPlain := hplain.of_startsWith hentryBelow
        have hrule := mem_rules_of_mem h.posix (h.accepted between mode' haccepted) hbetweenPlain
        have habove := hdecides.decides.deepest _ hrule
          (((hplain.startsWith_iff hbetweenPlain).mp hentryBelow).trans hentry.above)
        rw [(hdecides.plainRoot.startsWith_iff hbetweenPlain).mpr habove] at hbetween
        cases hbetween
      · have hdeniedPlain := hplain.of_startsWith hentryBelow
        exact (h.no_denied_between hdecides hdenied hdeniedPlain
          ((hdeniedPlain.startsWith_iff hdecides.plainRoot).mp hrootAbove)
          (((hplain.startsWith_iff hdeniedPlain).mp hentryBelow).trans hentry.above)).elim

theorem Intersects.comparable_of_decidesResult (hlimits : LimitsKept requested granted context)
    (hdecides : DecidesResult context requested granted result path root mode) :
    granted.IsComparable context := by
  intro entry hentry
  by_contra hambiguous
  have hambiguous := Bool.eq_true_of_not_eq_false hambiguous
  by_cases hdeny : ∃ denied ∈ granted.resolvedEntries context,
      isAmbiguous denied.1 ∧ denied.2 = .deny
  · obtain ⟨⟨denied, -⟩, hmem, hdenied, rfl⟩ := hdeny
    have hdepth : denied.lexicalDepth = none := by
      simp only [isAmbiguous, Bool.and_eq_true, Option.isNone_iff_eq_none] at hdenied
      exact hdenied.1
    have hoverlap : pathsOverlap denied root := by
      unfold pathsOverlap overlaps
      split <;> simp [hdepth]
    have hresult := h.denied root mode denied hdecides.accepted (.inr hmem) hoverlap
    rw [hdecides.comparable _ hresult] at hdenied
    cases hdenied
  · obtain ⟨denied, hmem, hcoincides⟩ := hlimits.ambiguous ⟨entry, hentry, hambiguous⟩
      (fun e he hamb hdenied => hdeny ⟨e, he, hamb, hdenied⟩) root mode hdecides.accepted
    rw [coincides, Bool.and_eq_true] at hcoincides
    have hplain := hdecides.plainRoot.of_startsWith hcoincides.2
    exact h.no_denied_between hdecides (.inr hmem) hplain
      ((hplain.startsWith_iff hdecides.plainRoot).mp hcoincides.1)
      (((hdecides.plainRoot.startsWith_iff hplain).mp hcoincides.2).trans hdecides.decides.above)

end

variable (context requested granted result) in
/-- The result allows no more than either side. -/
structure AllowsNoMore : Prop where
  read : ∀ path, (result.resolveAccess path context).canRead = true →
    (requested.resolveAccess path context).canRead = true ∧
      (granted.resolveAccess path context).canRead = true
  write : ∀ path, (result.resolveAccess path context).canWrite = true →
    (requested.resolveAccess path context).canWrite = true ∧
      (granted.resolveAccess path context).canWrite = true

variable (h : Intersects context requested granted result)
include h

theorem Intersects.allowsNoMore (hlimits : LimitsKept requested granted context) :
    AllowsNoMore context requested granted result where
  read := by
    intro path hread
    obtain ⟨root, hdecides⟩ := h.exists_decidesResult hread
    have hcomparable := h.comparable_of_decidesResult hlimits hdecides
    obtain ⟨-, -, -, -, -, hne⟩ := h.granted_below hdecides hcomparable
    exact ⟨h.requested_canRead hdecides hdecides.plainPath hdecides.decides.above prefix_rfl,
      canRead_iff.mpr hne⟩
  write := by
    intro path hwrite
    have haccess := canWrite_iff.mp hwrite
    have hread : (result.resolveAccess path context).canRead := by
      rw [haccess]
      rfl
    obtain ⟨root, hdecides⟩ := h.exists_decidesResult hread
    rw [haccess] at hdecides
    have hcomparable := h.comparable_of_decidesResult hlimits hdecides
    exact ⟨h.requested_canWrite hlimits hdecides hcomparable,
      h.granted_canWrite hdecides hcomparable⟩

theorem Intersects.comparable_result (haccepted : IsAccepted requested granted context root mode)
    (hgranted : ∀ entry ∈ granted.resolvedEntries context, entry.2 = .deny →
      isAmbiguous entry.1 = false) : result.IsComparable context := by
  rintro ⟨path, access⟩ hmem
  obtain ⟨_, hgrants⟩ := h.requested_grants haccepted
  rcases h.mem path access hmem with haccepted | ⟨rfl, hrequested | hdenied⟩
  · obtain ⟨_, hpath⟩ := h.requested_grants haccepted
    simp [isAmbiguous, hpath.plainPath.lexicalDepth_eq]
  · exact hgrants.comparable _ hrequested
  · exact hgranted _ hdenied rfl

theorem Intersects.decides_write
    (haccepted : IsAccepted requested granted context root .write) (hroot : root.IsPlain)
    (hpath : path.IsPlain) (hbelow : path.startsWith root)
    (hbetween : ∀ between mode', IsAccepted requested granted context between mode' →
      path.startsWith between → between.startsWith root →
      root.startsWith between)
    (hdenied : ∀ denied, IsDenied requested granted context denied →
      denied.startsWith root → path.startsWith denied = false) :
    Decides (result.rules context) path.components root.components .write := by
  have habove := (hpath.startsWith_iff hroot).mp hbelow
  have hnotDenied : ∀ denied : PathUri, denied.IsPlain →
      IsDenied requested granted context denied →
      root.components <+: denied.components →
      denied.components <+: path.components → False := by
    intro denied hplain hdeny hunder hover
    have hfalse := hdenied denied hdeny ((hplain.startsWith_iff hroot).mpr hunder)
    rw [(hpath.startsWith_iff hplain).mpr hover] at hfalse
    cases hfalse
  refine ⟨mem_rules_of_mem h.posix (h.accepted root .write haccepted) hroot, habove, ?_, ?_⟩
  · rintro ⟨components, access⟩ hrule hover
    obtain ⟨entry, hmem, hplain, rfl⟩ := (mem_rules h.posix).mp hrule
    by_contra hnotAbove
    have hunder : root.components <+: entry.components := by
      refine Or.resolve_left ?_ hnotAbove
      exact prefix_or_prefix_of_prefix hover habove
    rcases h.mem entry access hmem with hentry | ⟨-, hdeny⟩
    · apply hnotAbove
      rw [← hroot.startsWith_iff hplain]
      exact hbetween entry access hentry ((hpath.startsWith_iff hplain).mpr hover)
        ((hplain.startsWith_iff hroot).mpr hunder)
    · exact hnotDenied entry hplain hdeny hunder hover
  · rintro ⟨components, access⟩ hrule hequal
    obtain ⟨entry, hmem, hplain, rfl⟩ := (mem_rules h.posix).mp hrule
    dsimp only at hequal
    rcases h.mem entry access hmem with hentry | ⟨-, hdeny⟩
    · have hreads := (canRead_of_accessCovers hentry.covered).2
      dsimp only
      cases access with
      | read => decide
      | write => exact le_rfl
      | deny => cases hreads
    · exact (hnotDenied entry hplain hdeny (hequal ▸ prefix_rfl) (hequal ▸ habove)).elim

section

variable (hallows : AllowsNoMore context requested granted result)
include hallows

theorem Intersects.readOnly_of_allowsNoMore (hcomparable : granted.IsComparable context)
    (haccepted : IsAccepted requested granted context root .write)
    (hread : requested.resolveAccess path context = .read) (hbelow : path.startsWith root) :
    (∃ between mode', IsAccepted requested granted context between mode' ∧
      path.startsWith between ∧ between.startsWith root ∧
      root.startsWith between = false) ∨
    ∃ denied, IsDenied requested granted context denied ∧
      denied.startsWith root ∧ path.startsWith denied := by
  by_contra hlost
  push Not at hlost
  obtain ⟨_, hgrants⟩ := h.requested_grants haccepted
  have hpath := hgrants.plainPath.of_startsWith_base hbelow
  have hdecides := h.decides_write haccepted hgrants.plainPath hpath hbelow
    (fun between mode' hbetween hunder hover =>
      Bool.eq_true_of_not_eq_false (hlost.1 between mode' hbetween hunder hover))
    (fun denied hdenied hunder => Bool.eq_false_iff.mpr (hlost.2 denied hdenied hunder))
  have hwrite := resolveAccess_of_decides h.resultKind hgrants.plainCwd hpath
    (h.comparable_result haccepted fun entry hentry _ => hcomparable entry hentry) hdecides
  have hrequested := (hallows.write path (by rw [hwrite]; rfl)).1
  rw [hread] at hrequested
  cases hrequested

theorem Intersects.ambiguous_of_allowsNoMore
    (hambiguous : ∃ entry ∈ granted.resolvedEntries context, isAmbiguous entry.1)
    (hnotDenied : ∀ entry ∈ granted.resolvedEntries context, isAmbiguous entry.1 →
      entry.2 ≠ .deny) (haccepted : IsAccepted requested granted context root mode) :
    ∃ denied, (denied, .deny) ∈ granted.resolvedEntries context ∧ coincides denied root := by
  obtain ⟨top, hgrants⟩ := h.requested_grants haccepted
  have hroot := hgrants.plainPath
  have hcomparable := h.comparable_result haccepted fun entry hentry hdeny => by
    by_contra hamb
    exact hnotDenied entry hentry (Bool.eq_true_of_not_eq_false hamb) hdeny
  have hrule := mem_rules_of_mem h.posix (h.accepted root mode haccepted) hroot
  rcases resolveAccess_spec h.resultKind hgrants.plainCwd hroot
      hcomparable with ⟨components, hdecides⟩ | ⟨-, hnone⟩
  · have hequal : components = root.components :=
      prefix_antisymm hdecides.above (hdecides.deepest _ hrule prefix_rfl)
    subst hequal
    by_cases hdeny : result.resolveAccess root context = .deny
    · rw [hdeny] at hdecides
      obtain ⟨denied, hmem, hplain, hcomponents⟩ := (mem_rules h.posix).mp hdecides.mem
      rcases h.mem denied .deny hmem with hbad | ⟨-, hrequested | hgranted⟩
      · cases (canRead_of_accessCovers hbad.covered).2
      · -- The request cannot deny a path that it covers.
        have hrequestedRule : (root.components, deny) ∈ requested.rules context :=
          (mem_rules h.posix).mpr ⟨denied, hrequested, hplain, hcomponents⟩
        have htop : root.components = top :=
          prefix_antisymm (hgrants.decides.deepest _ hrequestedRule prefix_rfl)
            hgrants.decides.above
        have hle := hgrants.decides.strongest _ hrequestedRule htop
        have hcovered := (canRead_of_accessCovers haccepted.covered).1
        exact absurd (le_antisymm (le_deny _) hle) (canRead_iff.mp hcovered)
      · refine ⟨denied, hgranted, ?_⟩
        rw [coincides, Bool.and_eq_true,
          hplain.startsWith_iff hroot, hroot.startsWith_iff hplain, hcomponents]
        exact ⟨prefix_rfl, prefix_rfl⟩
    · obtain ⟨_, hgranted⟩ := exists_grants h.grantedKind h.posix
        (canRead_iff.mp (hallows.read root (canRead_iff.mpr hdeny)).2)
      obtain ⟨entry, hentry, hamb⟩ := hambiguous
      rw [hgranted.comparable entry hentry] at hamb
      cases hamb
  · exact absurd prefix_rfl (hnone _ hrule)

end

/-- The limits are kept exactly when the result allows no more than both sides. -/
theorem Intersects.allowsNoMore_iff :
    AllowsNoMore context requested granted result ↔ LimitsKept requested granted context := by
  constructor
  · intro hallows
    refine ⟨?_, ?_⟩
    · intro hcomparable root path mode haccepted hmem hread hbelow hstrict
      exact h.readOnly_of_allowsNoMore hallows hcomparable haccepted hread hbelow
    · intro hambiguous hnotDenied root mode haccepted
      exact h.ambiguous_of_allowsNoMore hallows hambiguous hnotDenied haccepted
  · exact h.allowsNoMore

end Within

/-- The intersection of two profiles grants no more than either. -/
structure WithinBoth (compile : GlobCompiler) (requested granted : AdditionalPermissionProfile)
    (context : FileSystemSandboxPolicyContext) : Prop where
  fileSystem : AllowsNoMore context requested.policy granted.policy
    (intersectPermissionProfilesWithContext compile requested granted context).policy
  network :
    (intersectPermissionProfilesWithContext compile requested granted
      context).networkEnabled = true →
    requested.networkEnabled = true ∧ granted.networkEnabled = true

def Materializes (context : FileSystemSandboxPolicyContext)
    (profile : AdditionalPermissionProfile) : Prop :=
  (materializeContextDependentEntries context profile.entries).isSome = true

section

variable {requested granted policy : FileSystemSandboxPolicy} (hposix : context.HasPosixCwd)
  (hkind : policy.kind = .restricted) (hentries : policy.entries = [])
include hposix hkind hentries

theorem resolveAccess_of_no_entries (path : PathUri) :
    policy.resolveAccess path context = .deny := by
  by_contra hne
  obtain ⟨root, hgrants⟩ := exists_grants hkind hposix hne
  obtain ⟨uri, hmem, -, -⟩ := (mem_rules hposix).mp hgrants.decides.mem
  rw [resolvedEntries, hentries] at hmem
  cases hmem

theorem allowsNoMore_of_no_entries : AllowsNoMore context requested granted policy := by
  constructor
  all_goals
    intro path haccess
    rw [resolveAccess_of_no_entries hposix hkind hentries path] at haccess
    cases haccess

theorem limitsKept_of_no_entries : LimitsKept policy granted context := by
  have hnone : ∀ root mode, ¬ IsAccepted policy granted context root mode := by
    intro root mode haccepted
    have hread := (canRead_of_accessCovers haccepted.covered).1
    rw [resolveAccess_of_no_entries hposix hkind hentries root] at hread
    cases hread
  exact ⟨fun _ root _ _ haccepted => absurd haccepted (hnone root _),
    fun _ _ root mode haccepted => absurd haccepted (hnone root mode)⟩

end

theorem optionalEntries_filter (fileSystem : Option FileSystemPermissions) :
    optionalEntries (fileSystem.filter fun permissions => !permissions.entries.isEmpty) =
      optionalEntries fileSystem := by
  cases fileSystem with
  | none => rfl
  | some permissions =>
    rw [Option.filter_some]
    cases hentries : permissions.entries with
    | nil | cons => simp [optionalEntries, hentries]

theorem entries_getD (profile : AdditionalPermissionProfile) :
    (profile.fileSystem.getD ⟨[], none⟩).entries = profile.entries := by
  unfold AdditionalPermissionProfile.entries
  cases profile.fileSystem <;> rfl

theorem intersect_networkEnabled {compile : GlobCompiler}
    {requested granted : AdditionalPermissionProfile}
    (h : (intersectPermissionProfilesWithContext compile requested granted
      context).networkEnabled) : requested.networkEnabled ∧ granted.networkEnabled := by
  by_contra hdisabled
  simp [intersectPermissionProfilesWithContext,
    AdditionalPermissionProfile.networkEnabled] at h hdisabled
  exact absurd h.2 (by simpa using hdisabled h.1)

/-- The intersection stays within the request and the grant exactly when every
limit below an accepted path is kept. -/
theorem withinBoth_iff_limitsKept (compile : GlobCompiler)
    (requested granted : AdditionalPermissionProfile) (context : FileSystemSandboxPolicyContext)
    (hposix : context.IsPosix) (hrequested : NoGlobs requested.entries)
    (hgranted : NoGlobs granted.entries) :
    WithinBoth compile requested granted context ↔
      (Materializes context requested → Materializes context granted →
        LimitsKept requested.policy granted.policy context) := by
  have hgrantedEntries := entries_getD granted
  generalize hfileSystem : granted.fileSystem.getD ⟨[], none⟩ = grantedFileSystem at hgrantedEntries
  have hwithin : WithinBoth compile requested granted context ↔
      AllowsNoMore context requested.policy granted.policy
        (intersectPermissionProfilesWithContext compile requested granted context).policy :=
    ⟨fun h => h.fileSystem, fun h => ⟨h, intersect_networkEnabled⟩⟩
  have hentries : (intersectPermissionProfilesWithContext compile requested granted
      context).entries = _ := optionalEntries_filter _
  rw [hwithin]
  rw [hfileSystem] at hentries
  cases hpart : requested.fileSystem with
  | none =>
    have hnone : requested.entries = [] := by
      simp [AdditionalPermissionProfile.entries, optionalEntries, hpart]
    rw [hpart] at hentries
    exact iff_of_true (allowsNoMore_of_no_entries hposix.cwd rfl hentries)
      fun _ _ => limitsKept_of_no_entries hposix.cwd rfl hnone
  | some requestedFileSystem =>
    have hrequestedEntries : requestedFileSystem.entries = requested.entries := by
      simp [AdditionalPermissionProfile.entries, optionalEntries, hpart]
    rw [hpart, Option.bind_some, intersectFileSystem, hrequestedEntries,
      hgrantedEntries] at hentries
    unfold Materializes
    cases hq : materializeContextDependentEntries context requested.entries with
    | none =>
      rw [hq] at hentries
      exact iff_of_true (allowsNoMore_of_no_entries hposix.cwd rfl hentries)
        fun hmaterializes => by cases hmaterializes
    | some requestedEntries =>
      cases hg : materializeContextDependentEntries context granted.entries with
      | none =>
        rw [hq, hg] at hentries
        exact iff_of_true (allowsNoMore_of_no_entries hposix.cwd rfl hentries)
          fun _ hmaterializes => by cases hmaterializes
      | some grantedEntries =>
        rw [hq, hg] at hentries
        have hmaterialized : Materialized context requestedFileSystem
            grantedFileSystem requestedEntries grantedEntries := by
          refine ⟨hposix.cwd, ?_, ?_⟩
          · rw [FileSystemPermissions.policy, hrequestedEntries]
            exact materialize_replaces hrequested hq
          · rw [FileSystemPermissions.policy, hgrantedEntries]
            exact materialize_replaces hgranted hg
        have hintersects := hmaterialized.intersects compile
        rw [FileSystemPermissions.policy, FileSystemPermissions.policy,
          hrequestedEntries, hgrantedEntries] at hintersects
        have hresult : (intersectPermissionProfilesWithContext compile requested
            granted context).policy =
            resultPolicy compile requestedFileSystem grantedFileSystem
              requestedEntries grantedEntries context :=
          congrArg restricted hentries
        rw [hresult]
        simp only [Option.isSome_some, forall_const]
        exact hintersects.allowsNoMore_iff

def outerPath : PathUri := ⟨none, ["a".toList], by decide⟩

def innerPath : PathUri := ⟨none, ["a".toList, "b".toList], by decide⟩

def outerContext : FileSystemSandboxPolicyContext := ⟨outerPath, [outerPath], none, none⟩

theorem outerContext_isPosix : outerContext.IsPosix :=
  ⟨by decide, forall_mem_singleton.mpr (by decide)⟩

def profileOf (entries : List FileSystemSandboxEntry) : AdditionalPermissionProfile :=
  ⟨none, some ⟨entries, none⟩⟩

/-- The request writes below `/a` and the grant keeps `/a/b` read-only. -/
theorem withinBoth_of_narrower_grant :
    WithinBoth (fun _ => none)
      (profileOf [.new (.path outerPath) .write])
      (profileOf [.new (.path outerPath) .write, .new (.path innerPath) .read])
      outerContext := by
  refine (withinBoth_iff_limitsKept _ _ _ _ outerContext_isPosix (by decide)
    (by decide)).mpr fun _ _ => ⟨?_, ?_⟩
  · intro _ root path mode _ hmem hread
    have hpath : path = outerPath := by
      simpa using congrArg Prod.fst (mem_singleton.mp hmem)
    subst hpath
    exact absurd hread (by decide)
  · rintro ⟨entry, hentry, hambiguous⟩
    exact absurd hambiguous (by
      revert entry
      decide)

/-- The request writes below `/a` but only reads `/a/b`; the grant allows to
write below `/a`, and so does the result. -/
theorem narrower_request_is_lost :
    ¬ WithinBoth (fun _ => none)
      (profileOf [.new (.path outerPath) .write, .new (.path innerPath) .read])
      (profileOf [.new (.path outerPath) .write])
      outerContext := by
  intro h
  have hwrite := (h.fileSystem.write innerPath (by decide)).1
  revert hwrite
  decide

end Rexux.Permissions
