import Rexux.Permissions.ProjectedRoots

/-!
# The order of entries

Decisions on access take the deepest entry and do not depend on the order of the
entries.  The metadata rule does: it stops at the first writable entry that has
the path among its metadata, and an entry further up is lifted by an entry below
it that would itself have refused the path.

`EntriesAgree` says that no two entries compete in this way.  It is what all
decisions need to be the same for every order (`decisionsOrderFree_iff`), and for
the projected roots one more thing has to be excluded: two writable entries that
resolve to one root and move a read-only entry to different places below it.
-/

namespace Rexux.Permissions

open Foundation Rexux.Path List

section Groups

variable {α : Type*} {p : α → Bool} {groups : List (List α)}

theorem exists_group_of_find {a : α}
    (h : groups.flatten.find? p = some a) : ∃ group ∈ groups, group.find? p = some a := by
  rw [find?_flatten] at h
  exact exists_of_findSome?_eq_some h

theorem find_flatten_eq_some {a : α} {group : List α} (hmem : group ∈ groups)
    (hgroup : group.find? p = some a)
    (hall : ∀ other ∈ groups, ∀ b, other.find? p = some b → b = a) :
    groups.flatten.find? p = some a := by
  cases hfind : groups.flatten.find? p with
  | none =>
    have hnone : ∀ x ∈ groups.flatten, ¬ p x := by
      simpa using find?_eq_none.mp hfind
    have ha := mem_of_find?_eq_some hgroup
    exact absurd (find?_some hgroup) (hnone a (mem_flatten.mpr ⟨group, hmem, ha⟩))
  | some b =>
    obtain ⟨other, hother, hb⟩ := exists_group_of_find hfind
    rw [hall other hother b hb]

end Groups

theorem findSome_perm {α β : Type*} {f : α → Option β} {l l' : List α} (hperm : l.Perm l')
    (hunique : ∀ x ∈ l, ∀ y ∈ l, ∀ a b, f x = some a → f y = some b → a = b) :
    l.findSome? f = l'.findSome? f := by
  cases h : l.findSome? f with
  | none =>
    rw [findSome?_eq_none_iff] at h
    exact (findSome?_eq_none_iff.mpr fun x hx => h x (hperm.mem_iff.mpr hx)).symm
  | some a =>
    obtain ⟨x, hx, ha⟩ := exists_of_findSome?_eq_some h
    cases h' : l'.findSome? f with
    | none =>
      rw [findSome?_eq_none_iff] at h'
      rw [h' x (hperm.mem_iff.mp hx)] at ha
      cases ha
    | some b =>
      obtain ⟨y, hy, hb⟩ := exists_of_findSome?_eq_some h'
      rw [hunique x hx y (hperm.mem_iff.mpr hy) a b ha hb]

/-- The root itself, or a root that has it among its metadata. -/
def shields (root other : List Bytes) : Bool := other = root ∨ IsMetadata other root

/-- For a root with a protected name that is not writable, the entries that
concern it agree: either all of them come to the root first or none does. -/
def EntriesAgree (groups : List (List (List Bytes))) : Prop :=
  ∀ root, ∀ name ∈ protectedNames, root ++ [name] ∉ groups.flatten →
    ∀ first ∈ groups, ∀ second ∈ groups,
      first.find? (shields root) = some root →
      ∀ other, second.find? (shields root) = some other → other = root

theorem EntriesAgree.of_perm {groups groups' : List (List (List Bytes))} (h : EntriesAgree groups)
    (hperm : groups.Perm groups') : EntriesAgree groups' := by
  intro root name hname hnot first hfirst second hsecond
  refine h root name hname ?_ first (hperm.mem_iff.mpr hfirst) second (hperm.mem_iff.mpr hsecond)
  rwa [hperm.flatten.mem_iff]

/-- If the entries agree, their order makes no difference to a denial. -/
theorem EntriesAgree.deniedBy {groups groups' : List (List (List Bytes))} {path root : List Bytes}
    {name : Text} (h : EntriesAgree groups) (hperm : groups.Perm groups')
    (hdenied : DeniedBy groups.flatten path root name) :
    DeniedBy groups'.flatten path root name := by
  have hmem : ∀ other, other ∈ groups.flatten ↔ other ∈ groups'.flatten :=
    fun _ => hperm.flatten.mem_iff
  have hmetadata : IsMetadata root path := ⟨_, mem_map_of_mem hdenied.isProtected, hdenied.above⟩
  have habove := hmetadata.root_prefix
  -- A root strictly between would lift the protection.
  have hdeepest : ∀ other ∈ groups.flatten, other <+: path → other <+: root := by
    intro other hother hpath
    rcases prefix_or_prefix_of_prefix hpath habove with hle | hge
    · exact hle
    · by_cases heq : root = other
      · exact heq ▸ prefix_rfl
      exact absurd ⟨other, hother, hpath, child_prefix_of_ne hdenied.above hpath hge heq⟩
        hdenied.notLifted
  have hunlisted : root ++ [utf8Bytes name] ∉ groups.flatten := fun hlisted =>
    hdenied.notLifted ⟨_, hlisted, hdenied.above, prefix_rfl⟩
  refine ⟨?_, hdenied.isProtected, hdenied.above, ?_⟩
  · have hfirst := hdenied.first
    rw [find_isMetadata_eq hdeepest habove hmetadata] at hfirst
    rw [find_isMetadata_eq (fun other hother => hdeepest other ((hmem other).mpr hother))
      habove hmetadata]
    obtain ⟨group, hgroup, hfind⟩ := exists_group_of_find hfirst
    refine find_flatten_eq_some (hperm.mem_iff.mp hgroup) hfind fun other hother b hb => ?_
    exact h root _ (mem_map_of_mem hdenied.isProtected) hunlisted group hgroup other
      (hperm.mem_iff.mpr hother) hfind b hb
  · rintro ⟨other, hother, hlifts⟩
    exact hdenied.notLifted ⟨other, (hmem other).mpr hother, hlifts⟩

variable {entries : List FileSystemSandboxEntry} {policy : FileSystemSandboxPolicy}

namespace FileSystemSandboxPolicy

def writeGroups (policy : FileSystemSandboxPolicy)
    (context : FileSystemSandboxPolicyContext) : List (List (List Bytes)) :=
  policy.entries.map fun entry => writeRoots (lexicalRules (entry.resolve context))

def withEntries (policy : FileSystemSandboxPolicy)
    (entries : List FileSystemSandboxEntry) : FileSystemSandboxPolicy :=
  { policy with entries := entries }

/-- The decisions on all paths are the same for every order of the entries. -/
def DecisionsOrderFree (policy : FileSystemSandboxPolicy)
    (context : FileSystemSandboxPolicyContext) : Prop :=
  ∀ entries, policy.entries.Perm entries → ∀ path,
    (policy.withEntries entries).resolveAccess path context = policy.resolveAccess path context ∧
      (policy.withEntries entries).canWritePath path context = policy.canWritePath path context ∧
      (policy.withEntries entries).metadataWriteDenial path context =
        policy.metadataWriteDenial path context

variable {context : FileSystemSandboxPolicyContext} {path : PathUri}

theorem flatten_writeGroups :
    (policy.writeGroups context).flatten = writeRoots (policy.rules context) := by
  unfold writeGroups rules resolvedEntries
  induction policy.entries with
  | nil => rfl
  | cons entry entries ih =>
    rw [map_cons, flatten_cons, ih]
    simp [lexicalRules, writeRoots]

theorem resolveAccess_eq_of_ne_deny (hkind : policy.kind = .restricted)
    (hposix : context.HasPosixCwd) (hperm : policy.entries.Perm entries)
    (h : policy.resolveAccess path context ≠ .deny) :
    (policy.withEntries entries).resolveAccess path context =
      policy.resolveAccess path context := by
  have hresolved : (policy.resolvedEntries context).Perm
      ((policy.withEntries entries).resolvedEntries context) := hperm.flatMap_right _
  have hrules : (policy.rules context).Perm
      ((policy.withEntries entries).rules context) := (hresolved.filter _).map _
  obtain ⟨root, hgrants⟩ := exists_grants hkind hposix h
  have hcomparable : (policy.withEntries entries).IsComparable context :=
    fun entry hentry => hgrants.comparable entry (hresolved.mem_iff.mpr hentry)
  exact resolveAccess_of_decides hkind hgrants.plainCwd hgrants.plainPath hcomparable
    (hgrants.decides.of_mem_iff fun rule => hrules.mem_iff)

section

variable (hposix : context.HasPosixCwd)
include hposix

/-- The access to a path does not depend on the order of the entries. -/
theorem resolveAccess_withEntries
    (hkind : policy.kind = .restricted) (hperm : policy.entries.Perm entries) :
    (policy.withEntries entries).resolveAccess path context =
      policy.resolveAccess path context := by
  by_cases hdeny : policy.resolveAccess path context = .deny
  · by_contra hne
    rw [hdeny] at hne
    have hback : ((policy.withEntries entries).withEntries policy.entries).resolveAccess
        path context = (policy.withEntries entries).resolveAccess path context :=
      resolveAccess_eq_of_ne_deny hkind hposix hperm.symm hne
    exact hne (hback.symm.trans hdeny)
  · exact resolveAccess_eq_of_ne_deny hkind hposix hperm hdeny

omit hposix in
theorem hasFullDiskWriteAccess_withEntries (hperm : policy.entries.Perm entries) :
    (policy.withEntries entries).hasFullDiskWriteAccess = policy.hasFullDiskWriteAccess := by
  have hany : ∀ f : FileSystemSandboxEntry → Bool, entries.any f = policy.entries.any f :=
    fun f => hperm.symm.any_eq
  have hoverride : ∀ entry, (policy.withEntries entries).hasSameTargetWriteOverride entry =
      policy.hasSameTargetWriteOverride entry := fun _ => hany _
  unfold hasFullDiskWriteAccess hasRootAccess hasWriteNarrowingEntries
  simp only [hoverride]
  simp only [withEntries, hany]
  rfl

/-- Nor does the denial of metadata, if the entries agree. -/
theorem metadataWriteDenial_withEntries
    (hkind : policy.kind = .restricted) (hagree : EntriesAgree (policy.writeGroups context))
    (hperm : policy.entries.Perm entries) :
    (policy.withEntries entries).metadataWriteDenial path context =
      policy.metadataWriteDenial path context := by
  by_cases hpath : path.IsPlain
  · have hgroups : (policy.writeGroups context).Perm
        ((policy.withEntries entries).writeGroups context) := hperm.map _
    have hkind' : (policy.withEntries entries).kind = .restricted := hkind
    apply Option.ext
    intro name
    rw [metadataWriteDenial_eq_some_iff hkind' hposix hpath,
      metadataWriteDenial_eq_some_iff hkind hposix hpath, ← flatten_writeGroups,
      ← flatten_writeGroups]
    constructor
    · rintro ⟨root, h⟩
      exact ⟨root, (hagree.of_perm hgroups).deniedBy hgroups.symm h⟩
    · rintro ⟨root, h⟩
      exact ⟨root, hagree.deniedBy hgroups h⟩
  · rw [metadataWriteDenial_of_not_plain hposix hpath,
      metadataWriteDenial_of_not_plain hposix hpath]

omit hposix in
theorem find_writeGroups_of_first {entry : FileSystemSandboxEntry}
    {rest : List FileSystemSandboxEntry} {root : List Bytes} {p : List Bytes → Bool}
    (h : (writeRoots (lexicalRules (entry.resolve context))).find? p = some root) :
    (writeRoots ((policy.withEntries (entry :: rest)).rules context)).find? p = some root := by
  rw [← flatten_writeGroups]
  simp [writeGroups, withEntries, h]

/-- Entries that disagree can be put in an order that changes a decision. -/
theorem entriesAgree_of_orderFree (hkind : policy.kind = .restricted)
    (h : policy.DecisionsOrderFree context) : EntriesAgree (policy.writeGroups context) := by
  intro root bytes hbytes hunlisted first hfirst second hsecond hroot other hother
  by_contra hne
  obtain ⟨name, hname, rfl⟩ := mem_map.mp hbytes
  obtain ⟨entry, hentry, rfl⟩ := mem_map.mp hfirst
  obtain ⟨entry', hentry', rfl⟩ := mem_map.mp hsecond
  have hlisted : root ∈ writeRoots (policy.rules context) := by
    rw [← flatten_writeGroups]
    exact mem_flatten.mpr ⟨_, hfirst, mem_of_find?_eq_some hroot⟩
  rw [flatten_writeGroups] at hunlisted
  -- The path is the protected name below the root.
  obtain ⟨uri, -, huri, hcomponents⟩ := (mem_rules hposix).mp (mem_writeRoots.mp hlisted)
  obtain ⟨path, -, hpath, hchild⟩ := huri.joinDescendant_plainName (isPlainName_of_mem hname)
  rw [hcomponents] at hchild
  have hmetadata : IsMetadata root path.components := ⟨_, mem_map_of_mem hname, hchild ▸ prefix_rfl⟩
  have hdeepest : ∀ place ∈ writeRoots (policy.rules context),
      place <+: path.components → place <+: root := by
    intro place hplace hbegins
    rw [hchild, prefix_concat_iff] at hbegins
    rcases hbegins with rfl | hbegins
    · exact absurd hplace hunlisted
    · exact hbegins
  have hmem : ∀ e ∈ policy.entries, ∀ place,
      place ∈ writeRoots ((policy.withEntries (e :: policy.entries.erase e)).rules context) ↔
        place ∈ writeRoots (policy.rules context) := by
    intro e he place
    rw [← flatten_writeGroups, ← flatten_writeGroups]
    exact (((perm_cons_erase he).map _).flatten.mem_iff).symm
  have hfind : ∀ e ∈ policy.entries, ∀ place,
      (writeRoots (lexicalRules (e.resolve context))).find? (shields root) = some place →
      (writeRoots ((policy.withEntries (e :: policy.entries.erase e)).rules context)).find?
        (IsMetadata · path.components) = some place := by
    intro e he place hplace
    rw [find_isMetadata_eq (fun q hq => hdeepest q ((hmem e he q).mp hq))
      (hchild ▸ prefix_append _ _) hmetadata]
    exact find_writeGroups_of_first hplace
  have hkind' : ∀ entries, (policy.withEntries entries).kind = .restricted := fun _ => hkind
  have hfront : (policy.withEntries
      (entry :: policy.entries.erase entry)).metadataWriteDenial path context = some name := by
    rw [metadataWriteDenial_eq_some_iff (hkind' _) hposix hpath]
    refine ⟨root, hfind entry hentry root hroot, hname, hchild ▸ prefix_rfl, ?_⟩
    rintro ⟨place, hplace, habove, hbelow⟩
    rw [hchild] at habove
    rw [prefix_antisymm habove hbelow, hmem entry hentry] at hplace
    exact hunlisted hplace
  have hback : (policy.withEntries
      (entry' :: policy.entries.erase entry')).metadataWriteDenial path context = none := by
    rw [Option.eq_none_iff_forall_ne_some]
    intro found hfound
    obtain ⟨place, hdenied⟩ := (metadataWriteDenial_eq_some_iff (hkind' _) hposix hpath).mp hfound
    obtain rfl := Option.some.inj (hdenied.first.symm.trans (hfind entry' hentry' other hother))
    have hplace : place <+: root := hdeepest place ((hmem entry' hentry' place).mp hdenied.mem)
      ((prefix_append _ _).trans hdenied.above)
    exact hdenied.notLifted ⟨root, (hmem entry' hentry' root).mpr hlisted,
      hmetadata.root_prefix, child_prefix_of_ne hdenied.above hmetadata.root_prefix hplace hne⟩
  have hsame := (h _ (perm_cons_erase hentry) path).2.2
  have hsame' := (h _ (perm_cons_erase hentry') path).2.2
  rw [hfront] at hsame
  rw [hback, ← hsame] at hsame'
  cases hsame'

theorem decisionsOrderFree_iff (hkind : policy.kind = .restricted) :
    policy.DecisionsOrderFree context ↔ EntriesAgree (policy.writeGroups context) := by
  refine ⟨entriesAgree_of_orderFree hposix hkind, fun hagree entries hperm path => ?_⟩
  have haccess : (policy.withEntries entries).resolveAccess path context = _ :=
    resolveAccess_withEntries hposix hkind hperm
  have hdenial : (policy.withEntries entries).metadataWriteDenial path context = _ :=
    metadataWriteDenial_withEntries hposix hkind hagree hperm
  refine ⟨haccess, ?_, hdenial⟩
  unfold canWritePath
  rw [haccess, hdenial, hasFullDiskWriteAccess_withEntries hperm]

end

end FileSystemSandboxPolicy

/-! ## Projected roots -/

namespace FileSystemSandboxPolicy

/-- The projected roots are the same for every order of the entries. -/
def RootsOrderFree (policy : FileSystemSandboxPolicy) (host : Host)
    (resolve : AbsolutePath → AbsolutePath) (cwd : AbsolutePath) : Prop :=
  ∀ entries, policy.entries.Perm entries →
    SameRoots (policy.getWritableRootsWithCwdImpl host resolve cwd)
      ((policy.withEntries entries).getWritableRootsWithCwdImpl host resolve cwd)

/-- Writable entries that resolve to one root move the entries outside the root to
the same places below it. -/
def RebasesAlike (policy : FileSystemSandboxPolicy) (host : Host)
    (resolve : AbsolutePath → AbsolutePath) (cwd : AbsolutePath) : Prop :=
  ∀ root raw raw' : AbsolutePath,
    (raw, .write) ∈ policy.resolvedEntriesWithCwd host cwd →
    (raw', .write) ∈ policy.resolvedEntriesWithCwd host cwd →
    resolve raw = root → resolve raw' = root →
    ∀ entry ∈ policy.resolvedEntriesWithCwd host cwd, entry.2 ≠ .write →
      entry.1.startsWith root = false →
      ∀ path path', rebasedPath host root entry.1 raw = some path →
        rebasedPath host root entry.1 raw' = some path' → path = path'

section Roots

variable {host : Host} {cwd root : AbsolutePath} {resolve : AbsolutePath → AbsolutePath}

theorem resolvedEntriesWithCwd_perm (hperm : policy.entries.Perm entries) :
    (policy.resolvedEntriesWithCwd host cwd).Perm
      ((policy.withEntries entries).resolvedEntriesWithCwd host cwd) :=
  hperm.filterMap _

theorem writableEntries_perm (hperm : policy.entries.Perm entries)
    (hcan : ∀ path, (policy.withEntries entries).canWritePathWithCwd host path cwd =
      policy.canWritePathWithCwd host path cwd) :
    (policy.writableEntries host cwd).Perm
      ((policy.withEntries entries).writableEntries host cwd) := by
  unfold writableEntries
  simp only [hcan]
  exact ((resolvedEntriesWithCwd_perm hperm).filter _).map _

theorem mem_of_mem_writableEntries {raw : AbsolutePath}
    (h : raw ∈ policy.writableEntries host cwd) :
    (raw, .write) ∈ policy.resolvedEntriesWithCwd host cwd := by
  obtain ⟨entry, hentry, rfl⟩ := mem_map.mp h
  obtain ⟨hmem, hwrite⟩ := mem_filter.mp hentry
  rw [Bool.and_eq_true] at hwrite
  exact FileSystemAccessMode.canWrite_iff.mp hwrite.1 ▸ hmem

theorem rebasesAlike_of_injective (h : Function.Injective resolve) :
    policy.RebasesAlike host resolve cwd := by
  rintro root raw raw' _ _ hraw hraw' entry _ _ _ path path' hpath hpath'
  obtain rfl := h (hraw.trans hraw'.symm)
  exact Option.some.inj (hpath.symm.trans hpath')

theorem RebasesAlike.carveout_eq {rawRoots rawRoots' : List AbsolutePath}
    {entry : AbsolutePath × FileSystemAccessMode} (hrebases : policy.RebasesAlike host resolve cwd)
    (hentry : entry ∈ policy.resolvedEntriesWithCwd host cwd) (hmode : entry.2 ≠ .write)
    (hraw : ∀ raw ∈ rawRoots, (raw, .write) ∈ policy.resolvedEntriesWithCwd host cwd ∧
      resolve raw = root) (hperm : rawRoots.Perm rawRoots') :
    carveout host resolve rawRoots root entry.1 = carveout host resolve rawRoots' root entry.1 := by
  unfold carveout
  by_cases hbelow : entry.1.startsWith root
  · simp only [hbelow, if_true]
  · have hfind : rawRoots.findSome? (rebasedPath host root entry.1) =
        rawRoots'.findSome? (rebasedPath host root entry.1) := by
      refine findSome_perm hperm fun raw hmem raw' hmem' => ?_
      exact hrebases root raw raw' (hraw raw hmem).1 (hraw raw' hmem').1 (hraw raw hmem).2
        (hraw raw' hmem').2 entry hentry hmode (Bool.eq_false_iff.mpr hbelow)
    rw [hfind]

theorem RebasesAlike.same_projectRoot (hrebases : policy.RebasesAlike host resolve cwd)
    (hperm : policy.entries.Perm entries)
    (hcan : ∀ path, (policy.withEntries entries).canWritePathWithCwd host path cwd =
      policy.canWritePathWithCwd host path cwd) :
    (policy.projectRoot host resolve cwd (policy.writableEntries host cwd) root).Same
      ((policy.withEntries entries).projectRoot host resolve cwd
        ((policy.withEntries entries).writableEntries host cwd) root) := by
  have hresolved : (policy.resolvedEntriesWithCwd host cwd).Perm
      ((policy.withEntries entries).resolvedEntriesWithCwd host cwd) :=
    resolvedEntriesWithCwd_perm hperm
  have hraw := (writableEntries_perm hperm hcan).filter (resolve · = root)
  refine ⟨rfl, fun path => ?_, fun name => ?_⟩
  · simp only [projectRoot, mem_dedupAbsolutePaths, mem_append, mem_filterMap, hcan]
    refine or_congr ?_ ?_
    · rw [mem_filter, mem_filter, hresolved.any_eq]
    · simp only [(hresolved.filter _).mem_iff]
      refine exists_congr fun entry => and_congr_right fun hentry => ?_
      obtain ⟨hmem, hrefused⟩ := mem_filter.mp hentry
      have hmode : entry.2 ≠ .write := by
        intro hwrite
        simp [hwrite, FileSystemAccessMode.canWrite] at hrefused
      rw [hrebases.carveout_eq (hresolved.mem_iff.mpr hmem) hmode ?_ hraw]
      intro raw hmem
      obtain ⟨hwrite, hroot⟩ := mem_filter.mp hmem
      exact ⟨mem_of_mem_writableEntries hwrite, of_decide_eq_true hroot⟩
  · simp only [projectRoot, protectedMetadataNamesForWritableRoot, hcan, mem_filter]
    rw [(hraw.cons root).all_eq]

/-- If the entries agree, the writable roots do not depend on their order. -/
theorem rootsOrderFree_of_entriesAgree (hkind : policy.kind = .restricted)
    (hrebases : policy.RebasesAlike host resolve cwd)
    (hagree : EntriesAgree (policy.writeGroups (localContext host cwd))) :
    policy.RootsOrderFree host resolve cwd := by
  intro entries hperm
  have hfree := (decisionsOrderFree_iff
    (PathUri.inferPathConvention_fromAbsPath cwd) hkind).mpr hagree
  have hcan : ∀ path, (policy.withEntries entries).canWritePathWithCwd host path cwd =
      policy.canWritePathWithCwd host path cwd :=
    fun path => (hfree entries hperm (.fromAbsPath path)).2.1
  unfold getWritableRootsWithCwdImpl
  rw [hasFullDiskWriteAccess_withEntries hperm]
  by_cases hdisk : policy.hasFullDiskWriteAccess
  · simp only [hdisk]
    exact ⟨fun root hroot => absurd hroot not_mem_nil, fun root hroot => absurd hroot not_mem_nil⟩
  · simp only [hdisk]
    constructor
    all_goals
      intro writable hmem
      obtain ⟨root, hroot, rfl⟩ := mem_map.mp hmem
      refine ⟨_, mem_map.mpr ⟨root, ?_, rfl⟩, hrebases.same_projectRoot hperm hcan⟩
      rw [mem_dedupAbsolutePaths, mem_map] at hroot ⊢
      simpa only [(writableEntries_perm hperm hcan).mem_iff] using hroot

/-- Decisions and projected roots do not depend on the order of the entries
exactly if the entries agree. -/
theorem orderFree_iff {context : FileSystemSandboxPolicyContext}
    (hposix : context.cwd.inferPathConvention = some .posix) (hkind : policy.kind = .restricted)
    (hrebases : policy.RebasesAlike host resolve cwd) :
    (policy.DecisionsOrderFree context ∧
        policy.DecisionsOrderFree (localContext host cwd) ∧
        policy.RootsOrderFree host resolve cwd) ↔
      EntriesAgree (policy.writeGroups context) ∧
        EntriesAgree (policy.writeGroups (localContext host cwd)) := by
  have hlocal : policy.DecisionsOrderFree (localContext host cwd) ↔
      EntriesAgree (policy.writeGroups (localContext host cwd)) :=
    decisionsOrderFree_iff (PathUri.inferPathConvention_fromAbsPath cwd) hkind
  rw [decisionsOrderFree_iff hposix hkind, hlocal]
  constructor
  · rintro ⟨hcontext, hagree, -⟩
    exact ⟨hcontext, hagree⟩
  · rintro ⟨hcontext, hagree⟩
    exact ⟨hcontext, hagree, rootsOrderFree_of_entriesAgree hkind hrebases hagree⟩

end Roots

/-- The order of a writable root and a read-only entry below it is irrelevant. -/
theorem orderFree_narrowedRoot :
    narrowedRoot.DecisionsOrderFree (localContext bareHost workspace) ∧
      narrowedRoot.DecisionsOrderFree (localContext bareHost workspace) ∧
      narrowedRoot.RootsOrderFree bareHost bareHost.normalizeEffective workspace := by
  have hagree : EntriesAgree (narrowedRoot.writeGroups (localContext bareHost workspace)) := by
    intro root name _ _ first hfirst second hsecond hroot other hother
    have hmem : ∀ group ∈ [[[utf8Bytes "a".toList]], []], ∀ place,
        group.find? (shields root) = some place → place = [utf8Bytes "a".toList] := by
      intro group hgroup place hplace
      have hplace := mem_of_find?_eq_some hplace
      simp only [mem_cons, not_mem_nil, or_false] at hgroup
      rcases hgroup with rfl | rfl
      · exact mem_singleton.mp hplace
      · cases hplace
    exact (hmem second hsecond other hother).trans (hmem first hfirst root hroot).symm
  exact (orderFree_iff (PathUri.inferPathConvention_fromAbsPath workspace) rfl
    (rebasesAlike_of_injective fun _ _ h => h)).mpr ⟨hagree, hagree⟩

def outerFirst : FileSystemSandboxPolicy :=
  restricted [entryAt ["a"] .write, entryAt ["a", ".git"] .write]

def innerFirst : FileSystemSandboxPolicy := outerFirst.withEntries outerFirst.entries.reverse

def outerGit : AbsolutePath := ⟨[utf8Bytes "a".toList, utf8Bytes ".git".toList], by decide⟩

def nestedGit : PathUri := ⟨none, ["a".toList, ".git".toList, ".git".toList], by decide⟩

/-- The two orders of a root and its writable metadata differ in the denial, in the
decision and in the projected roots. -/
theorem order_of_nested_entries_matters :
    outerFirst.kind = .restricted ∧ outerFirst.entries.Perm innerFirst.entries ∧
      outerFirst.metadataWriteDenial nestedGit (localContext bareHost workspace) = none ∧
      innerFirst.metadataWriteDenial nestedGit (localContext bareHost workspace) =
        some ".git".toList ∧
      outerFirst.canWritePath nestedGit (localContext bareHost workspace) = true ∧
      innerFirst.canWritePath nestedGit (localContext bareHost workspace) = false ∧
      ¬ SameRoots (outerFirst.getWritableRootsWithCwd bareHost workspace)
        (innerFirst.getWritableRootsWithCwd bareHost workspace) := by
  have hunprotected : (outerFirst.getWritableRootsWithCwd bareHost workspace).any
      (fun root => root.root = outerGit && root.protectedMetadataNames.isEmpty) := by
    decide +kernel
  have hprotected : (innerFirst.getWritableRootsWithCwd bareHost workspace).all
      (fun root => root.root != outerGit ||
        root.protectedMetadataNames.contains ".git".toList) := by
    decide +kernel
  refine ⟨rfl, (reverse_perm _).symm, by decide +kernel, by decide +kernel,
    by decide +kernel, by decide +kernel, fun hsame => ?_⟩
  obtain ⟨root, hmem, hroot⟩ := any_eq_true.mp hunprotected
  obtain ⟨other, hother, h⟩ := hsame.left root hmem
  have hlisted := all_eq_true.mp hprotected other hother
  simp only [Bool.and_eq_true, decide_eq_true_eq, List.isEmpty_iff] at hroot
  simp only [← h.root, hroot.1, bne_self_eq_false, Bool.false_or, contains_eq_mem,
    decide_eq_true_eq, ← h.protectedMetadataNames, hroot.2, not_mem_nil] at hlisted

end FileSystemSandboxPolicy

end Rexux.Permissions
