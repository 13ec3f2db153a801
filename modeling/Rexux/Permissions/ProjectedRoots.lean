import Rexux.Permissions.WritableRoots

/-!
# Projected roots and decisions

On a host without symbolic links and without metadata on disk, the projected
roots accept a path exactly if a root accepts it in the sense of the rules.  The
projection is therefore exact if and only if the nested roots agree and, when the
file system root is writable, the paths that look like drives are carved out of
it: decisions refuse those paths, and a root does not know about them.
-/

namespace Rexux.Permissions

open Foundation Rexux.Path List AbsolutePath FileSystemAccessMode

/-! ## What a root accepts -/

theorem WritableRoot.isPathWritable_iff (writable : WritableRoot) (path : AbsolutePath) :
    writable.isPathWritable path ↔
      writable.root.components <+: path.components ∧
        (∀ subpath ∈ writable.readOnlySubpaths,
          ¬ subpath.components <+: path.components) ∧
        ∀ name ∈ writable.protectedMetadataNames,
          ¬ writable.root.components ++ [utf8Bytes name] <+: path.components := by
  have hparts : writable.isPathWritable path = (path.startsWith writable.root &&
      !writable.readOnlySubpaths.any (path.startsWith ·) &&
      !writable.pathContainsProtectedMetadataName path) := by
    unfold isPathWritable
    split_ifs <;> simp_all
  rw [hparts, Bool.and_eq_true, Bool.and_eq_true, startsWith_iff, and_assoc]
  refine and_congr_right fun ⟨suffix, hsuffix⟩ => and_congr ?_ ?_
  · simp [startsWith_iff]
  · have hstrip : List.isPrefixOf? writable.root.components path.components =
        some suffix := isPrefixOf?_eq_some_iff_append_eq.mpr hsuffix
    rw [pathContainsProtectedMetadataName, hstrip, ← hsuffix]
    cases suffix with
    | nil =>
      refine iff_of_true rfl fun name _ hbegins => ?_
      exact absurd hbegins.length_le (by simp)
    | cons first rest => simp [@eq_comm _ first]

theorem rexux_mem : ".rexux".toList ∈ protectedMetadataPathNames := by
  simp [protectedMetadataPathNames]

namespace FileSystemSandboxPolicy

variable {policy : FileSystemSandboxPolicy}

section Projection

variable {host : Host} {cwd root path subpath : AbsolutePath}

theorem carveout_eq_some_iff {rawRoots : List AbsolutePath}
    (hlinks : host.IsLinkFree) (hraw : ∀ raw ∈ rawRoots, raw = root) :
    carveout host host.normalizeEffective rawRoots root path = some subpath ↔
      subpath = path ∧ path ≠ root ∧ root.components <+: path.components := by
  unfold carveout
  rw [hlinks.noLinks]
  by_cases heq : path = root
  · simp [heq]
  by_cases hbelow : path.startsWith root
  · have hbegins := (startsWith_iff _ _).mp hbelow
    by_cases hroot : root.components.isEmpty
    · simp [hroot, heq, hbelow, hbegins, eq_comm]
    · simp [hroot, heq, hbelow, hbegins, eq_comm]
  · have hbegins : ¬ root.components <+: path.components := by
      rwa [startsWith_iff] at hbelow
    have hnone : rawRoots.findSome? (rebasedPath host root path) = none := by
      rw [findSome?_eq_none_iff]
      intro raw hmem
      obtain rfl := hraw raw hmem
      unfold rebasedPath
      cases hstrip : List.isPrefixOf? raw.components path.components with
      | none => rfl
      | some suffix => exact absurd ⟨suffix, isPrefixOf?_eq_some_iff_append_eq.mp hstrip⟩ hbegins
    rw [hnone]
    simp [hbelow, hbegins]

theorem mem_defaultReadOnlySubpaths_iff {protectMissing : Bool} (hbare : host.IsBare) :
    subpath ∈ defaultReadOnlySubpathsForWritableRoot host root protectMissing ↔
      protectMissing ∧ subpath = childPath root ".rexux".toList := by
  obtain ⟨hgitDir, hgitFile⟩ := hbare.noMetadata root ".git".toList
    (by simp [protectedMetadataPathNames])
  obtain ⟨hagents, -⟩ := hbare.noMetadata root ".agents".toList
    (by simp [protectedMetadataPathNames])
  obtain ⟨hrexux, -⟩ := hbare.noMetadata root _ rexux_mem
  unfold defaultReadOnlySubpathsForWritableRoot
  rw [mem_dedupAbsolutePaths, hgitDir, hgitFile, hagents, hrexux]
  cases protectMissing <;> simp

theorem mem_getWritableRootsWithCwd {writable : WritableRoot} (hlinks : host.IsLinkFree)
    (hdisk : policy.hasFullDiskWriteAccess = false) :
    writable ∈ policy.getWritableRootsWithCwd host cwd ↔
      ∃ root, (root, .write) ∈ policy.resolvedEntriesWithCwd host cwd ∧
        policy.canWritePathWithCwd host root cwd ∧
        writable = policy.projectRoot host host.normalizeEffective cwd
          (policy.writableEntries host cwd) root := by
  unfold getWritableRootsWithCwd getWritableRootsWithCwdImpl
  rw [if_neg (by simp [hdisk])]
  simp only [mem_map, mem_dedupAbsolutePaths, hlinks.noLinks]
  constructor
  · rintro ⟨root, ⟨raw, hraw, rfl⟩, rfl⟩
    obtain ⟨entry, hentry, rfl⟩ := mem_map.mp hraw
    obtain ⟨hmem, hwrite⟩ := mem_filter.mp hentry
    rw [Bool.and_eq_true] at hwrite
    have hmode := canWrite_iff.mp hwrite.1
    exact ⟨entry.1, hmode ▸ hmem, hwrite.2, rfl⟩
  · rintro ⟨root, hmem, hwrite, rfl⟩
    refine ⟨root, ⟨root, ?_, rfl⟩, rfl⟩
    refine mem_map.mpr ⟨(root, .write), mem_filter.mpr ⟨hmem, ?_⟩, rfl⟩
    simp [hwrite, canWrite]

variable (policy host cwd root path) in
/-- A projected root accepts what is below it, apart from refused entries, its own
metadata, and missing workspace metadata. -/
structure HostAccepts : Prop where
  above : root.components <+: path.components
  carveouts : ∀ entry ∈ policy.resolvedEntriesWithCwd host cwd, entry.2 ≠ .write →
    policy.canWritePathWithCwd host entry.1 cwd = false → entry.1 ≠ root →
    root.components <+: entry.1.components → ¬ entry.1.components <+: path.components
  names : ∀ name ∈ protectedMetadataPathNames,
    root.components ++ [utf8Bytes name] <+: path.components →
      policy.canWritePathWithCwd host (childPath root name) cwd = true
  workspace : root = cwd →
    (∀ mode, (childPath root ".rexux".toList, mode) ∉ policy.resolvedEntriesWithCwd host cwd) →
    ¬ root.components ++ [workspaceMetadata] <+: path.components

variable (policy host cwd path) in
def AcceptedOnHost : Prop :=
  ∃ root, ((root, .write) ∈ policy.resolvedEntriesWithCwd host cwd ∧
    policy.canWritePathWithCwd host root cwd) ∧ policy.HostAccepts host cwd root path

theorem mem_protectedMetadataNames_iff {name : Text} {rawRoots : List AbsolutePath}
    (hraw : ∀ raw ∈ rawRoots, raw = root) :
    name ∈ policy.protectedMetadataNamesForWritableRoot host root rawRoots cwd ↔
      name ∈ protectedMetadataPathNames ∧
        policy.canWritePathWithCwd host (childPath root name) cwd = false := by
  unfold protectedMetadataNamesForWritableRoot
  rw [mem_filter]
  refine and_congr_right fun _ => ?_
  rw [all_eq_true, forall_mem_cons, Bool.not_eq_true']
  constructor
  · exact fun h => h.1
  · intro h
    refine ⟨h, fun raw hmem => ?_⟩
    rw [hraw raw hmem, h]
    rfl

theorem rawRoots_eq {raw : AbsolutePath} (hlinks : host.IsLinkFree)
    (hmem : raw ∈ (policy.writableEntries host cwd).filter
      (host.normalizeEffective · = root)) : raw = root := by
  have heq := of_decide_eq_true (mem_filter.mp hmem).2
  rwa [hlinks.noLinks] at heq

theorem mem_readOnlySubpaths_iff (hlinks : host.IsLinkFree) :
    subpath ∈ (policy.projectRoot host host.normalizeEffective cwd
        (policy.writableEntries host cwd) root).readOnlySubpaths ↔
      (subpath ∈ defaultReadOnlySubpathsForWritableRoot host root (cwd = root) ∧
        ∀ mode, (subpath, mode) ∉ policy.resolvedEntriesWithCwd host cwd) ∨
      ∃ mode, (subpath, mode) ∈ policy.resolvedEntriesWithCwd host cwd ∧
        mode ≠ .write ∧ policy.canWritePathWithCwd host subpath cwd = false ∧
        subpath ≠ root ∧ root.components <+: subpath.components := by
  have hraw : ∀ raw ∈ (policy.writableEntries host cwd).filter
      (host.normalizeEffective · = root), raw = root := fun _ => rawRoots_eq hlinks
  simp only [projectRoot, mem_dedupAbsolutePaths, mem_append, mem_filterMap]
  refine or_congr ?_ ?_
  · rw [mem_filter, hlinks.noLinks]
    refine and_congr_right fun _ => ?_
    simp only [Bool.not_eq_true', any_eq_false, decide_eq_true_eq, Prod.forall]
    constructor
    · intro h mode hmem
      exact h subpath mode hmem rfl
    · rintro h path mode hmem rfl
      exact h mode hmem
  · constructor
    · rintro ⟨entry, hentry, hcarveout⟩
      obtain ⟨hmem, hrefused⟩ := mem_filter.mp hentry
      obtain ⟨rfl, hne, hbelow⟩ := (carveout_eq_some_iff hlinks hraw).mp hcarveout
      rw [Bool.and_eq_true, Bool.not_eq_true', Bool.not_eq_true'] at hrefused
      refine ⟨entry.2, hmem, ?_, hrefused.2, hne, hbelow⟩
      intro hmode
      simp [hmode, canWrite] at hrefused
    · rintro ⟨mode, hmem, hmode, hrefused, hne, hbelow⟩
      refine ⟨(subpath, mode), mem_filter.mpr ⟨hmem, ?_⟩,
        (carveout_eq_some_iff hlinks hraw).mpr ⟨rfl, hne, hbelow⟩⟩
      have hnot : mode.canWrite = false := by
        rw [Bool.eq_false_iff]
        exact fun h => hmode (canWrite_iff.mp h)
      simp [hnot, hrefused]

/-- When a projected root takes a path for writable. -/
theorem projectRoot_isPathWritable_iff (hbare : host.IsBare) :
    (policy.projectRoot host host.normalizeEffective cwd
        (policy.writableEntries host cwd) root).isPathWritable path ↔
      policy.HostAccepts host cwd root path := by
  have hlinks := hbare.toIsLinkFree
  have hraw : ∀ raw ∈ (policy.writableEntries host cwd).filter
      (host.normalizeEffective · = root), raw = root := fun _ => rawRoots_eq hlinks
  have hchild := components_childPath root rexux_mem
  rw [WritableRoot.isPathWritable_iff]
  constructor
  · rintro ⟨habove, hsubpaths, hnames⟩
    refine ⟨habove, ?_, ?_, ?_⟩
    · intro entry hentry hmode hrefused hne hbelow
      exact hsubpaths entry.1 ((mem_readOnlySubpaths_iff hlinks).mpr
        (.inr ⟨entry.2, hentry, hmode, hrefused, hne, hbelow⟩))
    · intro name hname hbegins
      by_contra hrefused
      exact hnames name ((mem_protectedMetadataNames_iff hraw).mpr
        ⟨hname, Bool.eq_false_iff.mpr hrefused⟩) hbegins
    · rintro rfl hentry
      have hdefault : childPath root ".rexux".toList ∈
          defaultReadOnlySubpathsForWritableRoot host root (root = root) :=
        (mem_defaultReadOnlySubpaths_iff hbare).mpr ⟨by simp, rfl⟩
      have hsubpath := hsubpaths _ ((mem_readOnlySubpaths_iff hlinks).mpr (.inl ⟨hdefault, hentry⟩))
      rwa [hchild] at hsubpath
  · intro h
    refine ⟨h.above, ?_, ?_⟩
    · intro subpath hsubpath
      rcases (mem_readOnlySubpaths_iff hlinks).mp hsubpath with
        ⟨hdefault, hentry⟩ | ⟨mode, hmem, hmode, hrefused, hne, hbelow⟩
      · obtain ⟨hcwd, rfl⟩ := (mem_defaultReadOnlySubpaths_iff hbare).mp hdefault
        exact h.workspace (of_decide_eq_true hcwd).symm hentry
      · exact h.carveouts (subpath, mode) hmem hmode hrefused hne hbelow
    · intro name hname hbegins
      obtain ⟨hname, hrefused⟩ := (mem_protectedMetadataNames_iff hraw).mp hname
      rw [h.names name hname hbegins] at hrefused
      cases hrefused

end Projection

/-- The roots accept exactly the paths that may be written. -/
def ProjectionExact (policy : FileSystemSandboxPolicy) (host : Host) (cwd : AbsolutePath) : Prop :=
  ∀ path : AbsolutePath, (∀ component ∈ path.components, 0 ∉ component) →
    ((∃ writable ∈ policy.getWritableRootsWithCwd host cwd, writable.isPathWritable path = true) ↔
      policy.canWritePathWithCwd host path cwd = true)

/-- A writable file system root has an entry for every path that looks like a
drive. -/
def DrivesCarved (policy : FileSystemSandboxPolicy) (host : Host) (cwd : AbsolutePath) : Prop :=
  IsWriteRoot (policy.hostRules host cwd) [] → ∀ name, isDriveName name = true →
    ∃ entry ∈ policy.resolvedEntriesWithCwd host cwd, entry.2 ≠ .write ∧ entry.1.components = [name]

section Agreement

variable {host : Host} {cwd root path : AbsolutePath}

variable (policy host cwd) in
/-- The entries of the host and its rules, for a policy whose decisions are made
by the rules. -/
structure DecidesByRules : Prop where
  canWrite_iff : ∀ path : AbsolutePath,
    policy.canWritePathWithCwd host path cwd = true ↔
      path.IsOrdinary ∧ WritableAt (policy.hostRules host cwd) path.components

theorem mem_hostRules_of_mem {entry : AbsolutePath × FileSystemAccessMode}
    (hmem : entry ∈ policy.resolvedEntriesWithCwd host cwd) (hordinary : entry.1.IsOrdinary) :
    (entry.1.components, entry.2) ∈ policy.hostRules host cwd :=
  mem_hostRules.mpr ⟨entry.1, hmem, hordinary, rfl⟩

theorem hasEntry_iff (hordinary : path.IsOrdinary) :
    HasEntry (policy.hostRules host cwd) path.components ↔
      ∃ mode, (path, mode) ∈ policy.resolvedEntriesWithCwd host cwd := by
  constructor
  · rintro ⟨mode, hmem⟩
    obtain ⟨other, hother, -, hcomponents⟩ := mem_hostRules.mp hmem
    obtain rfl := ext hcomponents
    exact ⟨mode, hother⟩
  · rintro ⟨mode, hmem⟩
    exact ⟨mode, mem_hostRules_of_mem hmem hordinary⟩

section

variable (h : policy.DecidesByRules host cwd)
include h

theorem DecidesByRules.isWriteRoot_iff (hordinary : root.IsOrdinary) :
    IsWriteRoot (policy.hostRules host cwd) root.components ↔
      (root, .write) ∈ policy.resolvedEntriesWithCwd host cwd ∧
        policy.canWritePathWithCwd host root cwd := by
  rw [h.canWrite_iff]
  constructor
  · intro hroot
    obtain ⟨other, hother, -, hcomponents⟩ := mem_hostRules.mp hroot.mem
    obtain rfl := ext hcomponents
    exact ⟨hother, hordinary, (writableAt_iff_of_hasEntry hroot.hasEntry).mpr hroot⟩
  · rintro ⟨hmem, -, hwritable⟩
    exact (writableAt_iff_of_hasEntry ⟨.write, mem_hostRules_of_mem hmem hordinary⟩).mp hwritable

theorem DecidesByRules.accepts
    (hroot : IsWriteRoot (policy.hostRules host cwd) root.components) (hordinary : root.IsOrdinary)
    (haccepts : policy.HostAccepts host cwd root path) :
    Accepts (policy.hostRules host cwd) cwd.components root.components path.components where
  writable := hroot
  above := haccepts.above
  carveouts rule hrule hmode hrefused hne hbelow := by
    obtain ⟨place, hplace, hplaceOrdinary, hcomponents⟩ := mem_hostRules.mp hrule
    rw [← hcomponents] at hrefused hne hbelow ⊢
    refine haccepts.carveouts (place, rule.2) hplace hmode ?_ ?_ hbelow
    · rw [Bool.eq_false_iff, ne_eq, h.canWrite_iff]
      exact fun hwrite => hrefused hwrite.2
    · rintro rfl
      exact hne rfl
  names bytes hbytes hbegins := by
    obtain ⟨name, hname, rfl⟩ := mem_map.mp hbytes
    have hwrite := (h.canWrite_iff _).mp (haccepts.names name hname hbegins)
    rw [components_childPath root hname] at hwrite
    exact hwrite.2
  workspace hcwd hentry := by
    refine haccepts.workspace (ext hcwd) fun mode hmem => hentry ?_
    have hhas := (hasEntry_iff (isOrdinary_childPath hordinary rexux_mem)).mpr ⟨mode, hmem⟩
    rwa [components_childPath root rexux_mem] at hhas

theorem DecidesByRules.hostAccepts (hordinary : root.IsOrdinary) (hpath : path.IsOrdinary)
    (haccepts : Accepts (policy.hostRules host cwd) cwd.components root.components
      path.components) : policy.HostAccepts host cwd root path where
  above := haccepts.above
  carveouts entry hentry hmode hrefused hne hbelow hbegins := by
    -- Entries above an ordinary path are ordinary, so they are rules.
    have hentryOrdinary := hpath.of_prefix hbegins
    refine haccepts.carveouts _ (mem_hostRules_of_mem hentry hentryOrdinary) hmode ?_ ?_
      hbelow hbegins
    · intro hwritable
      rw [(h.canWrite_iff _).mpr ⟨hentryOrdinary, hwritable⟩] at hrefused
      cases hrefused
    · exact fun heq => hne (ext heq)
  names name hname hbegins := by
    rw [h.canWrite_iff, components_childPath root hname]
    exact ⟨isOrdinary_childPath hordinary hname, haccepts.names _ (mem_map_of_mem hname) hbegins⟩
  workspace hcwd hentry := by
    refine haccepts.workspace (congrArg components hcwd) ?_
    have hiff := @hasEntry_iff policy host cwd _ (isOrdinary_childPath hordinary rexux_mem)
    rw [components_childPath root rexux_mem] at hiff
    rw [workspaceMetadata, hiff]
    rintro ⟨mode, hmem⟩
    exact hentry mode hmem

/-- Some root accepts a path exactly if the rules let it be written. -/
theorem DecidesByRules.exists_hostAccepts_iff (hpath : path.IsOrdinary) :
    policy.AcceptedOnHost host cwd path ↔
      ∃ root, Accepts (policy.hostRules host cwd) cwd.components root path.components := by
  constructor
  · rintro ⟨root, hroot, haccepts⟩
    have hordinary := hpath.of_prefix haccepts.above
    exact ⟨root.components, h.accepts ((h.isWriteRoot_iff hordinary).mpr hroot) hordinary haccepts⟩
  · rintro ⟨components, haccepts⟩
    obtain ⟨root, -, hordinary, rfl⟩ := mem_hostRules.mp haccepts.writable.mem
    exact ⟨root, (h.isWriteRoot_iff hordinary).mp haccepts.writable,
      h.hostAccepts hordinary hpath haccepts⟩

end

theorem head_of_drive (h : path.components.head?.any isDriveName) :
    ∃ name rest, path.components = name :: rest ∧ isDriveName name := by
  cases hcomponents : path.components with
  | nil => simp [hcomponents] at h
  | cons name rest => exact ⟨name, rest, rfl, by simpa [hcomponents] using h⟩

theorem not_isOrdinary_of_drive (h : path.components.head?.any isDriveName) :
    ¬ path.IsOrdinary := by
  intro hordinary
  rw [hordinary.noDrive] at h
  cases h

theorem DecidesByRules.exists_hostAccepts_drive_iff (h : policy.DecidesByRules host cwd)
    (hdrive : path.components.head?.any isDriveName) :
    policy.AcceptedOnHost host cwd path ↔
      IsWriteRoot (policy.hostRules host cwd) [] ∧
        ∀ entry ∈ policy.resolvedEntriesWithCwd host cwd, entry.2 ≠ .write →
          entry.1.components ≠ [] → ¬ entry.1.components <+: path.components := by
  obtain ⟨name, rest, hcomponents, hname⟩ := head_of_drive hdrive
  -- A path above a drive is the root or looks like a drive itself.
  have hcases : ∀ other : AbsolutePath, other.components <+: path.components →
      other.components = [] ∨ ¬ other.IsOrdinary := by
    intro other hbegins
    cases hother : other.components with
    | nil => exact .inl rfl
    | cons first tail =>
      right
      rw [hother, hcomponents, cons_prefix_cons] at hbegins
      exact not_isOrdinary_of_drive (by simp [hother, hbegins.1, hname])
  have hrootOrdinary : root.IsOrdinary :=
    ⟨fun component hcomponent => absurd hcomponent not_mem_nil, rfl⟩
  constructor
  · rintro ⟨root, hroot, haccepts⟩
    have hordinary := ((h.canWrite_iff root).mp hroot.2).1
    have hnil : root.components = [] :=
      (hcases root haccepts.above).resolve_right (not_not.mpr hordinary)
    refine ⟨hnil ▸ (h.isWriteRoot_iff hordinary).mpr hroot, ?_⟩
    intro entry hentry hmode hne hbegins
    refine haccepts.carveouts entry hentry hmode ?_ ?_ ?_ hbegins
    · rw [Bool.eq_false_iff, ne_eq, h.canWrite_iff]
      exact fun hwrite => (hcases entry.1 hbegins).elim hne fun hnot => hnot hwrite.1
    · intro heq
      exact hne (heq ▸ hnil)
    · rw [hnil]
      exact nil_prefix
  · rintro ⟨hroot, hentries⟩
    have hchild : ∀ bytes ∈ protectedNames,
        ¬ root.components ++ [bytes] <+: path.components := by
      intro bytes hbytes hbegins
      rw [hcomponents, root, nil_append, cons_prefix_cons] at hbegins
      have hnot := (not_isDriveName_of_mem hbytes).1
      rw [hbegins.1, hname] at hnot
      cases hnot
    refine ⟨.root, (h.isWriteRoot_iff hrootOrdinary).mp hroot, nil_prefix, ?_, ?_, ?_⟩
    · intro entry hentry hmode _ hne _
      exact hentries entry hentry hmode fun hnil => hne (ext hnil)
    · intro name hname hbegins
      exact absurd hbegins (hchild _ (mem_map_of_mem hname))
    · exact fun _ _ => hchild _ workspaceMetadata_mem

theorem DecidesByRules.drivesCarved_iff (h : policy.DecidesByRules host cwd) :
    policy.DrivesCarved host cwd ↔
      ∀ path : AbsolutePath, path.components.head?.any isDriveName →
        (∀ component ∈ path.components, 0 ∉ component) → ¬ policy.AcceptedOnHost host cwd path := by
  constructor
  · intro hcarved path hdrive _
    rw [h.exists_hostAccepts_drive_iff hdrive]
    rintro ⟨hroot, hentries⟩
    obtain ⟨name, rest, hcomponents, hname⟩ := head_of_drive hdrive
    obtain ⟨entry, hentry, hmode, hplace⟩ := hcarved hroot name hname
    refine hentries entry hentry hmode (by simp [hplace]) ?_
    rw [hplace, hcomponents]
    exact ⟨rest, rfl⟩
  · intro hnone hroot name hname
    obtain ⟨letter, rfl⟩ : ∃ letter, name = [letter, 0x3A] := by
      unfold isDriveName at hname
      split at hname
      next letter => exact ⟨letter, rfl⟩
      · cases hname
    have hletter : letter ≠ 0x2F ∧ letter ≠ 0 := by
      constructor <;> rintro rfl <;> exact absurd hname (by decide)
    have hvalid : [[letter, 0x3A]].all isPathComponent := by
      simp [isPathComponent, hletter.1.symm]
    have hnot := hnone ⟨[[letter, 0x3A]], hvalid⟩ (by simpa using hname) (by simp [hletter.2.symm])
    rw [h.exists_hostAccepts_drive_iff (by simpa using hname)] at hnot
    push Not at hnot
    obtain ⟨entry, hentry, hmode, hne, hbegins⟩ := hnot hroot
    refine ⟨entry, hentry, hmode, ?_⟩
    cases hcomponents : entry.1.components with
    | nil => exact absurd hcomponents hne
    | cons first rest =>
      rw [hcomponents, cons_prefix_cons, prefix_nil] at hbegins
      rw [hbegins.1, hbegins.2]

/-- The projected roots are exact if and only if the nested roots agree and the
drives are carved out. -/
theorem projectionExact_iff (hkind : policy.kind = .restricted)
    (hdisk : policy.hasFullDiskWriteAccess = false) (hbare : host.IsBare)
    (halike : policy.SubpathsReadAlike host cwd) :
    policy.ProjectionExact host cwd ↔
      (cwd.IsOrdinary → policy.IsComparable (localContext host cwd) →
        NestedRootsAgree (policy.hostRules host cwd) cwd.components ∧
          policy.DrivesCarved host cwd) := by
  have hcan : ∀ path, policy.canWritePathWithCwd host path cwd ↔ _ :=
    fun path => canWritePathWithCwd_iff hkind hdisk hbare.tmp halike
  have haccepted : ∀ path, (∃ writable ∈ policy.getWritableRootsWithCwd host cwd,
        writable.isPathWritable path) ↔ policy.AcceptedOnHost host cwd path := by
    intro path
    simp only [mem_getWritableRootsWithCwd hbare.toIsLinkFree hdisk]
    constructor
    · rintro ⟨writable, ⟨root, hmem, hwrite, rfl⟩, haccepts⟩
      exact ⟨root, ⟨hmem, hwrite⟩, (projectRoot_isPathWritable_iff hbare).mp haccepts⟩
    · rintro ⟨root, ⟨hmem, hwrite⟩, haccepts⟩
      exact ⟨_, ⟨root, hmem, hwrite, rfl⟩, (projectRoot_isPathWritable_iff hbare).mpr haccepts⟩
  unfold ProjectionExact
  simp only [haccepted]
  by_cases hactive : cwd.IsOrdinary ∧ policy.IsComparable (localContext host cwd)
  · obtain ⟨hcwd, hcomparable⟩ := hactive
    have h : policy.DecidesByRules host cwd := by
      refine ⟨fun path => ?_⟩
      rw [hcan]
      simp only [hcwd, hcomparable, true_and]
    simp only [hcwd, hcomparable, forall_const]
    constructor
    · intro hexact
      refine ⟨nestedRootsAgree_of_children fun components bytes hbytes hroot => ?_,
        h.drivesCarved_iff.mpr fun path hdrive hnull => ?_⟩
      · obtain ⟨root, -, hordinary, rfl⟩ := mem_hostRules.mp hroot.mem
        obtain ⟨name, hname, rfl⟩ := mem_map.mp hbytes
        have hchild := isOrdinary_childPath hordinary hname
        have hagree := hexact (childPath root name) hchild.nullFree
        rw [h.exists_hostAccepts_iff hchild, h.canWrite_iff,
          components_childPath root hname] at hagree
        exact hagree.trans ⟨fun hwrite => hwrite.2, fun hwrite => ⟨hchild, hwrite⟩⟩
      · rw [hexact path hnull, h.canWrite_iff]
        exact fun hwrite => not_isOrdinary_of_drive hdrive hwrite.1
    · rintro ⟨hagree, hcarved⟩ path hnull
      by_cases hdrive : path.components.head?.any isDriveName
      · rw [h.canWrite_iff]
        exact iff_of_false (h.drivesCarved_iff.mp hcarved path hdrive hnull)
          fun hwrite => not_isOrdinary_of_drive hdrive hwrite.1
      · have hpath : path.IsOrdinary := ⟨hnull, Bool.eq_false_iff.mpr hdrive⟩
        rw [h.exists_hostAccepts_iff hpath, h.canWrite_iff]
        constructor
        · rintro ⟨root, haccepts⟩
          exact ⟨hpath, hagree.writableAt haccepts⟩
        · exact fun hwrite => hagree.exists_accepts hwrite.2
  · -- Nothing may be written and there are no roots.
    have hnone : ∀ path, ¬ policy.canWritePathWithCwd host path cwd := by
      intro path hwrite
      have hwrite := (hcan path).mp hwrite
      exact hactive ⟨hwrite.1, hwrite.2.2.1⟩
    refine iff_of_true ?_ fun hcwd hcomparable => absurd ⟨hcwd, hcomparable⟩ hactive
    intro path _
    refine iff_of_false ?_ (hnone path)
    rintro ⟨root, ⟨-, hwrite⟩, -⟩
    exact hnone root hwrite

end Agreement

def narrowedRoot : FileSystemSandboxPolicy :=
  restricted [entryAt ["a"] .write, entryAt ["a", "b"] .read]

def nestedRoots : FileSystemSandboxPolicy :=
  restricted [entryAt ["a"] .write, entryAt ["a", "b"] .write]

def workspace : AbsolutePath := ⟨[utf8Bytes "c".toList], by decide⟩

def innerGit : AbsolutePath :=
  ⟨[utf8Bytes "a".toList, utf8Bytes "b".toList, utf8Bytes ".git".toList], by decide⟩

/-- A single writable root is projected exactly. -/
theorem projectionExact_narrowedRoot : narrowedRoot.ProjectionExact bareHost workspace := by
  refine (projectionExact_iff rfl (by decide +kernel) isBare_bareHost ?_).mpr ?_
  · intro entry hentry subpath hpath
    simp only [narrowedRoot, restricted, mem_cons, not_mem_nil, or_false] at hentry
    rcases hentry with rfl | rfl <;> cases hpath
  · intro _ _
    have hroots : ∀ root, IsWriteRoot
        [([utf8Bytes "a".toList], .write),
          ([utf8Bytes "a".toList, utf8Bytes "b".toList], .read)] root →
        root = [utf8Bytes "a".toList] := by
      intro root hroot
      simpa using hroot.mem
    refine ⟨⟨?_, ?_⟩, ?_⟩
    · intro root name _ hroot _ _ outer houter hopen
      exact hopen.strict ((hroots outer houter).trans (hroots root hroot).symm)
    · intro hroot
      exact absurd (hroots _ hroot) (by decide)
    · intro hroot
      exact absurd (hroots _ hroot) (by decide)

/-- Metadata of the inner root is accepted by the outer root and refused by the
decision. -/
theorem inner_metadata_reached_through_outer_root :
    nestedRoots.kind = .restricted ∧
      nestedRoots.entries.all (fun entry => !entry.isGlob) = true ∧
      nestedRoots.hasFullDiskWriteAccess = false ∧ bareHost.IsBare ∧
      (nestedRoots.getWritableRootsWithCwd bareHost workspace).any
        (·.isPathWritable innerGit) = true ∧
      nestedRoots.canWritePathWithCwd bareHost innerGit workspace = false ∧
      ¬ nestedRoots.ProjectionExact bareHost workspace := by
  have hroots : (nestedRoots.getWritableRootsWithCwd bareHost workspace).any
      (·.isPathWritable innerGit) := by
    decide +kernel
  have hrefused : nestedRoots.canWritePathWithCwd bareHost innerGit workspace = false := by
    decide +kernel
  refine ⟨rfl, by decide, by decide +kernel, isBare_bareHost, hroots, hrefused, ?_⟩
  intro hexact
  have hwrite := (hexact innerGit (by decide)).mp (any_eq_true.mp hroots)
  cases hwrite

end FileSystemSandboxPolicy

end Rexux.Permissions
