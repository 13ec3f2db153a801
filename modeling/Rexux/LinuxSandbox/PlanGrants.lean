import Rexux.LinuxSandbox.PlanLayers

/-!
# What the plan grants

What a path shows is decided in the last block that covers it.  Deeper writable roots
have later blocks, so the deepest entry above the path is always the last to be
applied, and the plan grants no more than the policy.

This rests on `PlanAssumptions`, and each of them is needed.  A missing metadata entry
of the workspace is left to the protected names of its root, which only writable roots
have.  The target of a `.git` file is mounted read-only in the block of its root, over
the masks that an outer root has put there.  The plan and the decision take a subpath
such as `~/x` to different places.  A path that is no text is mounted under another
name.  And where the decision denies everything, an ambiguous entry or a path that looks
like a drive, the plan goes on.  Apart from that an empty file system root stays
writable, which only touches files that no one else sees.
-/

namespace Rexux.LinuxSandbox

open Foundation Rexux.Path Rexux.Permissions FileSystemSandboxPolicy List AbsolutePath
  FileSystemAccessMode

/-- What the plan relies on and does not check. -/
structure PlanAssumptions (policy : FileSystemSandboxPolicy) (host : SandboxHost)
    (cwd : AbsolutePath) : Prop where
  alike : policy.SubpathsReadAlike host.toHost cwd
  texts : ∀ entry ∈ policy.resolvedEntriesWithCwd host.toHost cwd, IsText entry.1
  registry : IsText host.syntheticMountRegistryRoot
  active : policy.hasFullDiskReadAccess = true → policy.IsActive host.toHost cwd
  /-- Missing metadata of the workspace belongs to a writable root or to none. -/
  metadata : missingAutoMetadataReadOnlyProjectRootSubpaths policy host cwd ≠ [] →
    IsWriteRoot (policy.hostRules host.toHost cwd) cwd.components ∨
      ∀ root, IsWriteRoot (policy.hostRules host.toHost cwd) root → ¬ root <+: cwd.components
  /-- Nothing is denied where the `.git` file of a root points to another root. -/
  pointers : ∀ root target : AbsolutePath,
    IsWriteRoot (policy.hostRules host.toHost cwd) root.components →
    gitdirTarget host.toHost root = some target →
    ¬ root.components <+: target.components →
    IsText target ∧ ∀ outer, IsWriteRoot (policy.hostRules host.toHost cwd) outer →
      outer <+: target.components →
      ∀ path : AbsolutePath, path.IsOrdinary → target.components <+: path.components →
        ReadableAt (policy.hostRules host.toHost cwd) path.components

/-- The writable roots of the plan. -/
def planRoots (policy : FileSystemSandboxPolicy) (host : SandboxHost) (cwd : AbsolutePath) :
    List WritableRoot :=
  existingWritableRoots policy host cwd []

/-- The paths that the plan hides. -/
def planUnreadable (policy : FileSystemSandboxPolicy) (host : SandboxHost)
    (cwd : AbsolutePath) : List AbsolutePath :=
  orderedPaths (policy.getUnreadableRootsWithCwd host.toHost cwd ++ [])

def projected (policy : FileSystemSandboxPolicy) (host : SandboxHost)
    (cwd root : AbsolutePath) : WritableRoot :=
  policy.projectRoot host.toHost host.normalizeEffective cwd
    (policy.writableEntries host.toHost cwd) root

theorem mem_orderedPaths {paths : List AbsolutePath} {path : AbsolutePath} :
    path ∈ orderedPaths paths ↔ path ∈ paths := by
  rw [orderedPaths, mem_dedup, mem_insertionSort]

variable {writable : WritableRoot} {context : PlanContext}

section Roots

variable {policy : FileSystemSandboxPolicy} {host : SandboxHost} {cwd root path : AbsolutePath}

theorem mem_planRoots (hfree : host.IsSymlinkFree) (hdisk : policy.hasFullDiskWriteAccess = false)
    (hexists : ∀ root, (root, .write) ∈ policy.resolvedEntriesWithCwd host.toHost cwd →
      host.pathExists root) :
    writable ∈ planRoots policy host cwd ↔
      ∃ root, (root, .write) ∈ policy.resolvedEntriesWithCwd host.toHost cwd ∧
        policy.canWritePathWithCwd host.toHost root cwd ∧
        writable = projected policy host cwd root := by
  unfold planRoots existingWritableRoots
  simp only [hdisk, Bool.and_false, Bool.false_and, Bool.false_eq_true, if_false,
    mem_filter, mem_getWritableRootsWithCwd hfree.toIsLinkFree hdisk]
  constructor
  · exact fun h => h.1
  · rintro ⟨root, hmem, hwrite, rfl⟩
    exact ⟨⟨root, hmem, hwrite, rfl⟩, hexists root hmem⟩

theorem mem_planUnreadable :
    path ∈ planUnreadable policy host cwd ↔
      path ∈ policy.getUnreadableRootsWithCwd host.toHost cwd := by
  rw [planUnreadable, mem_orderedPaths, append_nil]

theorem mem_appendMetadataPathMasks {subpaths : List AbsolutePath} {names : List Text} :
    path ∈ appendMetadataPathMasks root subpaths names ↔
      path ∈ subpaths ∨ ∃ name ∈ names, path = childPath root name := by
  unfold appendMetadataPathMasks
  induction names generalizing subpaths with
  | nil => simp
  | cons name names ih =>
    rw [foldl_cons, ih, mem_ite_contains]
    simp [or_assoc]

theorem mem_maskedSubpaths :
    path ∈ maskedSubpaths context writable ↔
      (path ∈ writable.readOnlySubpaths ∧ path ∉ context.unreadableRoots ∧
          path ∉ context.missingMetadata) ∨
        ∃ name ∈ writable.protectedMetadataNames, path = childPath writable.root name := by
  rw [maskedSubpaths, mem_appendMetadataPathMasks]
  simp [and_comm]

theorem exists_name_of_isMetadataSubpath {subpath : Text} (h : isMetadataSubpath subpath)
    (home : Option AbsolutePath) :
    ∃ name ∈ protectedMetadataPathNames,
      (resolvePathAgainstBase home subpath cwd).components =
        cwd.components ++ [utf8Bytes name] := by
  unfold isMetadataSubpath at h
  cases hsplit : subpath.splitOn '/' with
  | nil => simp [hsplit] at h
  | cons first rest =>
    simp only [hsplit, Bool.and_eq_true, contains_eq_mem, decide_eq_true_eq,
      all_eq_true, Bool.or_eq_true, List.isEmpty_iff] at h
    obtain ⟨hname, hrest⟩ := h
    refine ⟨first, hname, ?_⟩
    have hbytes : (utf8Bytes subpath).splitOn 0x2F = utf8Bytes first :: rest.map utf8Bytes := by
      rw [splitOn_utf8Bytes, hsplit, map_cons]
    have hskip : ∀ parts : List Text, (∀ part ∈ parts, part = [] ∨ part = ['.']) →
        ∀ components : List Bytes,
          (parts.map utf8Bytes).foldl normalizeStep components = components := by
      intro parts hparts components
      induction parts with
      | nil => rfl
      | cons part parts ih =>
        rw [forall_mem_cons] at hparts
        have hstep : normalizeStep components (utf8Bytes part) = components := by
          rcases hparts.1 with rfl | rfl
          · exact if_pos (.inl rfl)
          · exact if_pos (.inr (by decide))
        rw [map_cons, foldl_cons, hstep, ih hparts.2]
    -- The text starts with a dot, so it is relative and not below the home directory.
    obtain ⟨tail, rfl⟩ : ∃ tail, subpath = '.' :: tail := by
      have hjoin := @intercalate_splitOn _ subpath _ _ '/'
      rw [hsplit] at hjoin
      simp only [protectedMetadataPathNames, mem_cons, not_mem_nil, or_false] at hname
      rcases hname with rfl | rfl | rfl
      all_goals cases rest <;> exact ⟨_, hjoin.symm⟩
    have hresolve : resolvePathAgainstBase home ('.' :: tail) cwd =
        cwd.append (utf8Bytes ('.' :: tail)) := by
      have hhead : (utf8Bytes ('.' :: tail)).head? ≠ some 0x2F := by
        rw [utf8Bytes_cons, utf8EncodeChar_ascii (by decide), singleton_append, head?_cons]
        decide
      unfold resolvePathAgainstBase
      split
      next heq => exact absurd (List.cons.inj heq).1 (by decide)
      next heq => exact absurd (List.cons.inj heq).1 (by decide)
      · rw [absolutizeFrom, if_neg hhead]
    have hfirst : normalizeStep cwd.components (utf8Bytes first) =
        cwd.components ++ [utf8Bytes first] := by
      have hplain : utf8Bytes first ≠ [] ∧ utf8Bytes first ≠ [0x2E] ∧
          utf8Bytes first ≠ [0x2E, 0x2E] := by
        simp only [protectedMetadataPathNames, mem_cons, not_mem_nil, or_false] at hname
        rcases hname with rfl | rfl | rfl <;> decide
      rw [normalizeStep, if_neg (by simp [hplain.1, hplain.2.1]), if_neg hplain.2.2]
    rw [hresolve, append]
    simp only [hbytes, foldl_cons]
    rw [hskip rest hrest, hfirst]

theorem exists_name_of_mem_missingMetadata
    (h : path ∈ missingAutoMetadataReadOnlyProjectRootSubpaths policy host cwd) :
    ∃ name ∈ protectedMetadataPathNames, path.components = cwd.components ++ [utf8Bytes name] := by
  obtain ⟨entry, -, hentry⟩ := mem_filterMap.mp h
  unfold missingMetadataSubpath at hentry
  split at hentry
  · dsimp only at hentry
    split at hentry
    next hskipped =>
      obtain rfl := Option.some.inj hentry
      rw [Bool.and_eq_true] at hskipped
      exact exists_name_of_isMetadataSubpath hskipped.1 host.homeDir
    · cases hentry
  · cases hentry

end Roots

/-- A restricted policy on a host without links where all writable places exist. -/
structure PlanSetting (policy : FileSystemSandboxPolicy) (host : SandboxHost)
    (cwd : AbsolutePath) : Prop where
  kind : policy.kind = .restricted
  noGlobs : ∀ entry ∈ policy.entries, entry.isGlob = false
  noDefaults : policy.includePlatformDefaults = false
  disk : policy.hasFullDiskWriteAccess = false
  free : host.IsSymlinkFree
  existing : ∀ root, (root, .write) ∈ policy.resolvedEntriesWithCwd host.toHost cwd →
    host.pathExists root = true

def policyContext (policy : FileSystemSandboxPolicy) (host : SandboxHost)
    (cwd : AbsolutePath) : PlanContext :=
  planContext policy host cwd (planRoots policy host cwd) (planUnreadable policy host cwd)

section

variable (policy : FileSystemSandboxPolicy) (host : SandboxHost) (cwd : AbsolutePath)

abbrev planBase : List (Layer Bytes View) :=
  (baseMounts policy host cwd (planRoots policy host cwd)).flatMap BwrapMount.layers

abbrev planBlocks : List (Layer Bytes View) :=
  (sortRootsByDepth (planRoots policy host cwd)).flatMap
    (blockLayers (policyContext policy host cwd))

abbrev planWritePaths : List AbsolutePath := (planRoots policy host cwd).map (·.root)

/-- The masks above the writable roots, the blocks of these, and the masks elsewhere. -/
abbrev planOverlay : List (Layer Bytes View) :=
  unreadableLayers (policyContext policy host cwd)
      (unreadableAncestors (planUnreadable policy host cwd) (planWritePaths policy host cwd)) ++
    planBlocks policy host cwd ++
    unreadableLayers (policyContext policy host cwd)
      (rootlessUnreadableRoots (planUnreadable policy host cwd) (planWritePaths policy host cwd))

end

section Grants

variable {policy : FileSystemSandboxPolicy} {host : SandboxHost}
  {cwd root path : AbsolutePath} {layer : Layer Bytes View}

section

variable (hset : PlanSetting policy host cwd)
include hset

theorem actsByRules_of_canRead (halike : policy.SubpathsReadAlike host.toHost cwd)
    (h : policy.canReadPathWithCwd host.toHost path cwd) : policy.ActsByRules host.toHost cwd :=
  ⟨hset.kind, halike, ((canReadPathWithCwd_iff hset.kind hset.free.tmp halike).mp h).1⟩

/-- The roots of the plan are write roots of the policy's rules. -/
theorem spec_of_mem_planRoots
    (hassume : PlanAssumptions policy host cwd) (h : writable ∈ planRoots policy host cwd) :
    ∃ root : AbsolutePath, writable = projected policy host cwd root ∧ root.IsOrdinary ∧
      IsText root ∧ IsWriteRoot (policy.hostRules host.toHost cwd) root.components ∧
      policy.ActsByRules host.toHost cwd := by
  obtain ⟨root, hmem, hwrite, rfl⟩ := (mem_planRoots hset.free hset.disk hset.existing).mp h
  have hacts := actsByRules_of_canRead hset hassume.alike (canRead_of_canWrite hwrite)
  have hrules := hacts.decidesByRules hset.free.toIsLinkFree hset.disk
  have hordinary := ((hrules.canWrite_iff root).mp hwrite).1
  exact ⟨root, rfl, hordinary, hassume.texts _ hmem,
    (hrules.isWriteRoot_iff hordinary).mpr ⟨hmem, hwrite⟩, hacts⟩

theorem projected_mem_planRoots
    (hacts : policy.ActsByRules host.toHost cwd) (hordinary : root.IsOrdinary)
    (h : IsWriteRoot (policy.hostRules host.toHost cwd) root.components) :
    projected policy host cwd root ∈ planRoots policy host cwd := by
  have hrules := hacts.decidesByRules hset.free.toIsLinkFree hset.disk
  obtain ⟨hmem, hwrite⟩ := (hrules.isWriteRoot_iff hordinary).mp h
  exact (mem_planRoots hset.free hset.disk hset.existing).mpr ⟨root, hmem, hwrite, rfl⟩

theorem mem_allowedWritePaths :
    root ∈ (policyContext policy host cwd).allowedWritePaths ↔
      ∃ writable ∈ planRoots policy host cwd, writable.root = root := by
  have heq : (policyContext policy host cwd).allowedWritePaths =
      (planRoots policy host cwd).map (·.root) := allowedWritePathsOf_eq hset.free _
  rw [heq, mem_map]

theorem isSound_policyContext (hassume : PlanAssumptions policy host cwd) :
    (policyContext policy host cwd).IsSound where
  free := hset.free
  existing root hroot := by
    obtain ⟨writable, hwritable, rfl⟩ := (mem_allowedWritePaths hset).mp hroot
    obtain ⟨root, hmem, -, rfl⟩ := (mem_planRoots hset.free hset.disk hset.existing).mp hwritable
    exact hset.existing root hmem
  texts unreadable h := hassume.texts _ ((mem_getUnreadableRootsWithCwd hset.kind
    hset.free.toIsLinkFree).mp (mem_planUnreadable.mp h)).1

end

theorem mem_planRoots_of_split {before after : List WritableRoot}
    (h : sortRootsByDepth (planRoots policy host cwd) = before ++ writable :: after) :
    writable ∈ planRoots policy host cwd := by
  have hmem : writable ∈ sortRootsByDepth (planRoots policy host cwd) := by
    rw [h]
    exact mem_append_right _ mem_cons_self
  exact (mem_insertionSort _).mp hmem

theorem prefix_of_later_blocks {before after : List WritableRoot} {other : AbsolutePath}
    (hset : PlanSetting policy host cwd) (hassume : PlanAssumptions policy host cwd)
    (hacts : policy.ActsByRules host.toHost cwd)
    (hsplit : sortRootsByDepth (planRoots policy host cwd) =
      before ++ projected policy host cwd root :: after)
    (hafter : ∀ writable ∈ after,
      shownAt (blockLayers (policyContext policy host cwd) writable) path.components = none)
    (habove : root.components <+: path.components) (hordinary : other.IsOrdinary)
    (hother : IsWriteRoot (policy.hostRules host.toHost cwd) other.components)
    (hbegins : other.components <+: path.components) : other.components <+: root.components := by
  rcases prefix_or_prefix_of_prefix hbegins habove with hle | hle
  · exact hle
  by_contra hnot
  have hlt : root.components.length < other.components.length :=
    length_lt_of_strict hle fun heq => hnot (heq ▸ prefix_rfl)
  have hmem : projected policy host cwd other ∈ sortRootsByDepth (planRoots policy host cwd) :=
    (mem_insertionSort _).mpr (projected_mem_planRoots hset hacts hordinary hother)
  have hsorted : (sortRootsByDepth (planRoots policy host cwd)).Pairwise
      fun a b => a.root.components.length ≤ b.root.components.length :=
    pairwise_insertionSort _ _
  rw [hsplit] at hmem hsorted
  have hnone := hafter _ (@mem_after_of_key_lt _
    (fun writable : WritableRoot => writable.root.components.length) _ _ _ _ hsorted hmem hlt)
  have htext : IsText other := hassume.texts _ ((hacts.decidesByRules hset.free.toIsLinkFree
      hset.disk).isWriteRoot_iff hordinary |>.mp hother).1
  refine shownAt_eq_none_iff.mp hnone ⟨mountTarget other, .host true⟩ ?_ (htext ▸ hbegins)
  exact mem_append_left _ (mem_append_left _ (mem_append_left _ (mem_singleton_self _)))

theorem childPath_mem_maskedSubpaths {name : Text}
    (hlinks : host.IsLinkFree) (hname : name ∈ protectedMetadataPathNames)
    (hrefused : policy.canWritePathWithCwd host.toHost (childPath root name) cwd = false) :
    childPath root name ∈ maskedSubpaths context (projected policy host cwd root) := by
  refine mem_maskedSubpaths.mpr (.inr ⟨name, ?_, rfl⟩)
  exact (@mem_protectedMetadataNames_iff policy host.toHost cwd root name _
    fun _ => rawRoots_eq hlinks).mpr ⟨hname, hrefused⟩

section

variable (hset : PlanSetting policy host cwd)
include hset

/-- What the mounts of the writable roots show as writable, the policy lets be written. -/
theorem canWrite_of_blocks (hassume : PlanAssumptions policy host cwd) (hpath : path.IsOrdinary)
    (h : shownAt (planBlocks policy host cwd) path.components = some layer)
    (hcontent : layer.content = .host true) : policy.canWritePathWithCwd host.toHost path cwd := by
  have hlinks := hset.free.toIsLinkFree
  have hsound := isSound_policyContext hset hassume
  obtain ⟨before, writable, after, hsplit, hshown, hafter⟩ := exists_block_of_shownAt_flatMap h
  have hmem : writable ∈ planRoots policy host cwd := mem_planRoots_of_split hsplit
  obtain ⟨root, rfl, hordinary, htext, hroot, hacts⟩ := spec_of_mem_planRoots hset hassume hmem
  have hallowed := (mem_allowedWritePaths hset).mpr ⟨_, hmem, rfl⟩
  obtain ⟨habove, hmasks⟩ := writable_of_shownAt_block hsound hallowed htext hshown hcontent
  have hrules := hacts.decidesByRules hlinks hset.disk
  have hlater := fun other hother => @prefix_of_later_blocks policy host cwd root path before
    after other hset hassume hacts hsplit hafter habove hother
  have hchild : ∀ name ∈ protectedMetadataPathNames,
      root.components ++ [utf8Bytes name] <+: path.components →
      policy.canWritePathWithCwd host.toHost (childPath root name) cwd := by
    intro name hname hbegins
    by_contra hrefused
    refine hmasks _ (childPath_mem_maskedSubpaths hlinks hname (Bool.eq_false_iff.mpr hrefused))
      (htext.childPath hname) ?_ ?_
    · rw [components_childPath root hname]
      exact prefix_append _ _
    · rwa [components_childPath root hname]
  rw [hrules.canWrite_iff]
  refine ⟨hpath, ?_⟩
  obtain ⟨components, mode, hdecides⟩ := exists_decides hroot.mem habove
  obtain ⟨entry, hentry, hentryOrdinary, rfl⟩ := mem_hostRules.mp hdecides.mem
  have hbelow : root.components <+: entry.components := hdecides.deepest _ hroot.mem habove
  by_cases heq : entry = root
  · -- The root decides, and its protected names are masked.
    subst heq
    obtain rfl : mode = .write := (decides_root hdecides).level_unique hroot
    refine ⟨_, hdecides, or_iff_not_imp_right.mpr fun hmetadata => ?_⟩
    obtain ⟨bytes, hbytes, hbegins⟩ := not_not.mp hmetadata
    obtain ⟨name, hname, rfl⟩ := mem_map.mp hbytes
    have hwrite := ((hrules.canWrite_iff _).mp (hchild name hname hbegins)).2
    rw [components_childPath entry hname] at hwrite
    exact (writableAt_child_iff hroot hbytes (not_hasEntry_of_decides hdecides hbegins)).mp hwrite
  have hwritable : ¬ IsWriteRoot (policy.hostRules host.toHost cwd) entry.components := by
    intro hwrite
    have hle := hlater entry hentryOrdinary hwrite hdecides.above
    exact heq (ext (prefix_antisymm hle hbelow))
  have hrefused : policy.canWritePathWithCwd host.toHost entry cwd = false := by
    rw [Bool.eq_false_iff, ne_eq, hrules.canWrite_iff,
      writableAt_iff_of_hasEntry ⟨mode, hdecides.mem⟩]
    exact fun hwrite => hwritable hwrite.2
  have hmode : mode ≠ .write := by
    rintro rfl
    exact hwritable (decides_root hdecides)
  -- The entry is masked as an unreadable root, as a carve-out or as a protected name.
  have hreadable : entry ∉ planUnreadable policy host cwd := fun hunreadable =>
    not_prefix_of_shownAt_block hsound hallowed hshown (by simp [hcontent]) hunreadable hbelow
      hdecides.above
  by_cases hmissing : entry ∈ missingAutoMetadataReadOnlyProjectRootSubpaths policy host cwd
  · obtain ⟨name, hname, hcomponents⟩ := exists_name_of_mem_missingMetadata hmissing
    have hcwd : root.components <+: cwd.components := by
      refine (prefix_concat_iff.mp (hcomponents ▸ hbelow)).resolve_left fun hsame => ?_
      exact heq (ext (hcomponents.trans hsame.symm))
    have hsame : root = cwd := by
      rcases hassume.metadata (ne_nil_of_mem hmissing) with hworkspace | hnone
      · refine ext (prefix_antisymm hcwd ?_)
        refine hlater cwd hacts.active.ordinary hworkspace ?_
        exact (hcomponents ▸ prefix_append _ _ :
          cwd.components <+: entry.components).trans hdecides.above
      · exact absurd hcwd (hnone _ hroot)
    subst hsame
    have hentryEq : entry = childPath root name :=
      ext (hcomponents.trans (components_childPath root hname).symm)
    have hallow := hchild name hname (hcomponents ▸ hdecides.above)
    rw [← hentryEq, hrefused] at hallow
    cases hallow
  · refine absurd hdecides.above (hmasks entry (mem_maskedSubpaths.mpr (.inl
      ⟨?_, hreadable, hmissing⟩)) (hassume.texts _ hentry) hbelow)
    exact (mem_readOnlySubpaths_iff hlinks).mpr (.inr ⟨mode, hentry, hmode, hrefused, heq, hbelow⟩)

/-- What they show at all, the policy lets be read. -/
theorem canRead_of_blocks (hassume : PlanAssumptions policy host cwd) (hpath : path.IsOrdinary)
    (h : shownAt (planBlocks policy host cwd) path.components = some layer)
    (hcontent : layer.content ≠ .empty) : policy.canReadPathWithCwd host.toHost path cwd := by
  have hlinks := hset.free.toIsLinkFree
  have hsound := isSound_policyContext hset hassume
  obtain ⟨before, writable, after, hsplit, hshown, -⟩ := exists_block_of_shownAt_flatMap h
  have hmem := mem_planRoots_of_split hsplit
  obtain ⟨root, rfl, hordinary, htext, hroot, hacts⟩ := spec_of_mem_planRoots hset hassume hmem
  have hallowed := (mem_allowedWritePaths hset).mpr ⟨_, hmem, rfl⟩
  obtain ⟨hlisted, hwrite⟩ := ((hacts.decidesByRules hlinks hset.disk).isWriteRoot_iff
    hordinary).mp hroot
  rw [hacts.canRead_iff hlinks]
  refine ⟨hpath, ?_⟩
  -- Below the root, a denial would be masked in the same block.
  have hinside : root.components <+: path.components →
      ReadableAt (policy.hostRules host.toHost cwd) path.components := by
    intro habove
    by_contra hnot
    obtain ⟨unreadable, hunreadable, -, -, hbelow, hbegins⟩ :=
      hacts.exists_unreadable hlinks hlisted (canRead_of_canWrite hwrite) habove hnot
    exact not_prefix_of_shownAt_block hsound hallowed hshown hcontent
      (mem_planUnreadable.mpr hunreadable) hbelow hbegins
  rcases origin_of_shownAt_block hsound htext hassume.registry hshown hcontent with
    habove | ⟨subpath, hsubpath, htarget, hwithin⟩
  · exact hinside habove
  by_cases hbelow : root.components <+: subpath.components
  · obtain ⟨suffix, hsuffix⟩ := hbelow
    have hstart : mountTarget root <+: mountTarget subpath := by
      rw [mountTarget, mountTarget, ← hsuffix, map_append]
      exact prefix_append _ _
    rw [htext] at hstart
    exact hinside (hstart.trans htarget)
  -- Elsewhere it is the target of the `.git` file.
  have hpointer : gitdirTarget host.toHost root = some subpath := by
    rcases mem_maskedSubpaths.mp hsubpath with ⟨hreadOnly, -⟩ | ⟨name, hname, rfl⟩
    · rcases (mem_readOnlySubpaths_iff hlinks).mp hreadOnly with
        ⟨hdefault, -⟩ | ⟨_, _, _, _, _, hbegins⟩
      · rcases gitdirTarget_or_child_of_mem_default hdefault with htarget | ⟨name, hname, rfl⟩
        · exact htarget
        · rw [components_childPath root hname] at hbelow
          exact absurd (prefix_append _ _) hbelow
      · exact absurd hbegins hbelow
    · have hname := ((@mem_protectedMetadataNames_iff policy host.toHost cwd root name _
        fun _ => rawRoots_eq hlinks).mp hname).1
      rw [show (projected policy host cwd root).root = root from rfl,
        components_childPath root hname] at hbelow
      exact absurd (prefix_append _ _) hbelow
  obtain ⟨hsubtext, hreadable⟩ := hassume.pointers root subpath hroot hpointer hbelow
  obtain ⟨outer, houter, hbegins⟩ := isWithinAllowedWritePaths_iff.mp hwithin
  obtain ⟨writable, hwritable, rfl⟩ := (mem_allowedWritePaths hset).mp houter
  obtain ⟨outer, rfl, -, -, hwriteRoot, -⟩ := spec_of_mem_planRoots hset hassume hwritable
  exact hreadable _ hwriteRoot hbegins path hpath (hsubtext ▸ htarget)

/-! ## Grants of the plan -/

end

section

variable (hset : PlanSetting policy host cwd)
include hset

theorem mem_planBase (h : layer ∈ planBase policy host cwd) :
    layer.content = .scratch ∨ layer = ⟨mountTarget devPath, .devices⟩ ∨
      ∃ place, layer = ⟨mountTarget place, .host false⟩ ∧ (policy.hasFullDiskReadAccess ∨
        place ∈ policy.getReadableRootsWithCwd host.toHost cwd) := by
  have hreadable : readableMount host (planRoots policy host cwd) = .roBind := by
    funext place
    unfold readableMount
    rw [canonicalTarget_eq_none hset.free]
    split <;> rfl
  obtain ⟨mount, hmount, hlayer⟩ := mem_flatMap.mp h
  unfold baseMounts at hmount
  simp only [hset.noDefaults, Bool.false_eq_true, if_false, append_nil, contains_eq_mem,
    decide_eq_true_eq, mem_orderedPaths, hreadable] at hmount
  split at hmount
  next hfull =>
    rcases mem_pair.mp hmount with rfl | rfl
    · exact .inr (.inr ⟨_, mem_singleton.mp hlayer, .inl hfull⟩)
    · exact .inr (.inl (mem_singleton.mp hlayer))
  split at hmount
  next hroot =>
    rcases mem_pair.mp hmount with rfl | rfl
    · exact .inr (.inr ⟨_, mem_singleton.mp hlayer, .inr hroot⟩)
    · exact .inr (.inl (mem_singleton.mp hlayer))
  rcases mem_append.mp hmount with hfixed | hmount
  · rcases mem_pair.mp hfixed with rfl | rfl
    · rw [mem_singleton.mp hlayer]
      exact .inl rfl
    · exact .inr (.inl (mem_singleton.mp hlayer))
  · obtain ⟨place, hplace, rfl⟩ := mem_map.mp hmount
    exact .inr (.inr ⟨place, mem_singleton.mp hlayer,
      .inr (mem_orderedPaths.mp (mem_filter.mp hplace).1)⟩)

section

variable (hassume : PlanAssumptions policy host cwd)
include hassume

theorem exists_mask_of_mem_planUnreadable {unreadable : AbsolutePath}
    (hmem : unreadable ∈ planUnreadable policy host cwd)
    (hexists : host.pathExists unreadable) (habove : unreadable.components <+: path.components) :
    ∃ layer ∈ planOverlay policy host cwd, layer.target <+: path.components := by
  have hsound := isSound_policyContext hset hassume
  have htext := hsound.texts unreadable hmem
  by_cases hwithin : isWithinAllowedWritePaths (planWritePaths policy host cwd) unreadable
  · obtain ⟨root, hroot, hbegins⟩ := isWithinAllowedWritePaths_iff.mp hwithin
    obtain ⟨writable, hwritable, rfl⟩ := mem_map.mp hroot
    obtain ⟨root, rfl, -, hroottext, -⟩ := spec_of_mem_planRoots hset hassume hwritable
    refine ⟨⟨mountTarget root, .host true⟩, ?_, ?_⟩
    · refine mem_append_left _ (mem_append_right _ (mem_flatMap.mpr
        ⟨_, (mem_insertionSort _).mpr hwritable, ?_⟩))
      exact mem_append_left _ (mem_append_left _ (mem_append_left _ (mem_singleton_self _)))
    · exact (hroottext : mountTarget root = _) ▸ hbegins.trans habove
  by_cases hancestor : (planWritePaths policy host cwd).any (·.startsWith unreadable)
  · have hlisted : unreadable ∈ unreadableAncestors (planUnreadable policy host cwd)
        (planWritePaths policy host cwd) := by
      refine mem_sortByDepth.mpr (mem_filter.mpr ⟨hmem, ?_⟩)
      rw [Bool.and_eq_true, Bool.not_eq_true']
      exact ⟨Bool.eq_false_iff.mpr hwithin, hancestor⟩
    obtain ⟨layer, hlayer, htarget⟩ := exists_mem_unreadableLayers hsound hlisted htext
      (.inl hexists) habove
    exact ⟨layer, mem_append_left _ (mem_append_left _ hlayer), htarget⟩
  · have hlisted : unreadable ∈ rootlessUnreadableRoots (planUnreadable policy host cwd)
        (planWritePaths policy host cwd) := by
      refine mem_sortByDepth.mpr (mem_filter.mpr ⟨hmem, ?_⟩)
      rw [Bool.not_eq_true', any_eq_false]
      intro root hroot hrelated
      rw [Bool.or_eq_true] at hrelated
      rcases hrelated with hbelow | habove
      · exact hwithin (any_eq_true.mpr ⟨root, hroot, hbelow⟩)
      · exact hancestor (any_eq_true.mpr ⟨root, hroot, habove⟩)
    obtain ⟨layer, hlayer, htarget⟩ := exists_mem_unreadableLayers hsound hlisted htext
      (.inl hexists) habove
    exact ⟨layer, mem_append_right _ hlayer, htarget⟩

/-- The same for the mounts below them. -/
theorem canRead_of_base {place : AbsolutePath} (hpath : path.IsOrdinary)
    (hexists : host.pathExists path) (htarget : mountTarget place <+: path.components)
    (horigin : policy.hasFullDiskReadAccess ∨
      place ∈ policy.getReadableRootsWithCwd host.toHost cwd)
    (hmasks : ∀ unreadable ∈ planUnreadable policy host cwd,
      host.pathExists unreadable → ¬ unreadable.components <+: path.components) :
    policy.canReadPathWithCwd host.toHost path cwd := by
  have hlinks := hset.free.toIsLinkFree
  rcases horigin with hfull | hreadable
  · have hacts : policy.ActsByRules host.toHost cwd :=
      ⟨hset.kind, hassume.alike, hassume.active hfull⟩
    exact (hacts.canRead_iff hlinks).mpr ⟨hpath, readableAt_of_full hset.kind hfull _⟩
  · obtain ⟨-, mode, hmem, -, hread⟩ := (mem_getReadableRootsWithCwd hlinks).mp hreadable
    have habove := (hassume.texts _ hmem : mountTarget place = _) ▸ htarget
    have hacts := actsByRules_of_canRead hset hassume.alike hread
    refine (hacts.canRead_iff hlinks).mpr ⟨hpath, ?_⟩
    by_contra hnot
    obtain ⟨unreadable, hunreadable, -, -, -, hbegins⟩ :=
      hacts.exists_unreadable hlinks hmem hread habove hnot
    exact hmasks unreadable (mem_planUnreadable.mpr hunreadable)
      (hset.free.parents path unreadable hbegins hexists) hbegins

end

theorem getUnreadableGlobs_eq_nil : policy.getUnreadableGlobsWithCwd host.toHost cwd = [] := by
  have hnone : ∀ entry ∈ policy.entries.filter (·.access = .deny), ∀ pattern,
      entry.path ≠ .globPattern pattern := by
    intro entry hentry pattern hpath
    have hglob := hset.noGlobs entry (mem_filter.mp hentry).1
    simp [FileSystemSandboxEntry.isGlob, hpath] at hglob
  unfold getUnreadableGlobsWithCwd
  rw [filterMap_eq_nil_iff.mpr]
  · simp [sortedTexts, dedupNeighbours]
  · intro entry hentry
    cases hpath : entry.path with
    | globPattern pattern => exact absurd hpath (hnone entry hentry pattern)
    | path | special => rfl

theorem createFilesystemArgs_eq (depth : Option ℕ) :
    createFilesystemArgs policy host cwd depth =
      overlayArgs policy host cwd (planRoots policy host cwd) (planUnreadable policy host cwd) := by
  unfold createFilesystemArgs
  simp only [getUnreadableGlobs_eq_nil hset]
  rfl

/-- The mounts in terms of layers: base, masks, writable roots, masks. -/
theorem createFilesystemArgs_spec (depth : Option ℕ) :
    ∃ args, createFilesystemArgs policy host cwd depth = .ok args ∧
      args.layers = planBase policy host cwd ++ planOverlay policy host cwd := by
  have hexists : ∀ writable ∈ planRoots policy host cwd, host.pathExists writable.root := by
    intro writable hwritable
    obtain ⟨root, hmem, -, rfl⟩ := (mem_planRoots hset.free hset.disk hset.existing).mp hwritable
    exact hset.existing root hmem
  rw [createFilesystemArgs_eq hset]
  obtain ⟨args, hargs, hlayers⟩ := overlayArgs_spec hset.free hexists rfl
  exact ⟨args, hargs, hlayers.trans (by simp only [append_assoc]; rfl)⟩

end

end Grants

def treeHost (host : Host) (paths : List AbsolutePath) : SandboxHost where
  toHost := host
  pathExists path := paths.any (·.startsWith path)
  linkMetadata path := if paths.any (·.startsWith path) then some false else none
  canonicalize path := some path
  isEmptyFile _ := false
  isEmptyDirectory _ := false
  syntheticMountRegistryRoot := slashTmp
  scanUnreadableGlobs _ _ _ := .ok []

theorem isSymlinkFree_treeHost {host : Host} (h : host.IsLinkFree)
    (paths : List AbsolutePath) : (treeHost host paths).IsSymlinkFree where
  toIsLinkFree := h
  noSymlinks path := by
    simp only [treeHost]
    split <;> simp
  parents path other hbegins hexists := by
    simp only [treeHost, any_eq_true, startsWith_iff] at hexists ⊢
    obtain ⟨place, hplace, habove⟩ := hexists
    exact ⟨place, hplace, hbegins.trans habove⟩

theorem pathExists_of_all {host : SandboxHost}
    {entries : List (AbsolutePath × FileSystemAccessMode)}
    (h : entries.all fun entry => entry.2 ≠ .write || host.pathExists entry.1) (root : AbsolutePath)
    (hroot : (root, .write) ∈ entries) : host.pathExists root := by
  simpa using all_eq_true.mp h _ hroot

/-- The plan shows a path that the policy does not let anyone read. -/
def ShowsUnreadable (policy : FileSystemSandboxPolicy) (host : SandboxHost)
    (cwd path : AbsolutePath) : Prop :=
  PlanSetting policy host cwd ∧
    (createFilesystemArgs policy host cwd none).map (·.isVisible host path) = .ok true ∧
    policy.canReadPathWithCwd host.toHost path cwd = false

/-- The plan opens a path that the policy does not let anyone write. -/
def OpensReadOnly (policy : FileSystemSandboxPolicy) (host : SandboxHost)
    (cwd path : AbsolutePath) : Prop :=
  PlanSetting policy host cwd ∧
    (createFilesystemArgs policy host cwd none).map (·.isWritable path) = .ok true ∧
    policy.canWritePathWithCwd host.toHost path cwd = false

theorem setting_treeHost {policy : FileSystemSandboxPolicy} {host : Host} {cwd : AbsolutePath}
    {paths : List AbsolutePath} (hkind : policy.kind = .restricted)
    (hchecks : (policy.entries.all (!·.isGlob) && !policy.includePlatformDefaults &&
      !policy.hasFullDiskWriteAccess && (policy.resolvedEntriesWithCwd host cwd).all fun entry =>
        entry.2 ≠ .write || (treeHost host paths).pathExists entry.1) = true)
    (hfree : host.IsLinkFree) : PlanSetting policy (treeHost host paths) cwd := by
  simp only [Bool.and_eq_true, Bool.not_eq_true'] at hchecks
  obtain ⟨⟨⟨hglobs, hdefaults⟩, hdisk⟩, hexists⟩ := hchecks
  refine ⟨hkind, ?_, hdefaults, hdisk, isSymlinkFree_treeHost hfree paths,
    pathExists_of_all hexists⟩
  intro entry hentry
  simpa using all_eq_true.mp hglobs entry hentry

def workspaceGit : FileSystemSandboxPolicy :=
  restricted [.new (.special .root) .read, entryAt ["a"] .write,
    .new (.special (.projectRoots (some ".git".toList))) .read]

def hiddenFile : FileSystemSandboxPolicy :=
  restricted [entryAt ["w"] .write, entryAt ["w", "a"] .write, entryAt ["w", "g", "s"] .deny]

def hiddenFileHost : Host :=
  { bareHost with
    isFile := fun path => path = pathOf ["w", "a", ".git"]
    gitdir := fun _ => some (pathOf ["w", "g"]) }

def deniedHomeSubpath : FileSystemSandboxPolicy :=
  restricted [entryAt ["a"] .read, .new (.special (.projectRoots (some "~/x".toList))) .deny]

/-- A name that is no text; it is shown with the replacement character. -/
def strayBytes : AbsolutePath := (pathOf ["a"]).append [0xFF]

def strayRoot : FileSystemSandboxPolicy :=
  restricted [entryAt ["a"] .read, .new (.path (.fromAbsPath strayBytes)) .write]

def driveReadable : FileSystemSandboxPolicy := restricted [.new (.special .root) .read]

def readOnlyDirectory : FileSystemSandboxPolicy := restricted [entryAt ["a"] .read]

end Rexux.LinuxSandbox
