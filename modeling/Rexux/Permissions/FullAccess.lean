import Rexux.Permissions.WritableRoots

/-!
# Full disk access

Whether a policy gives access to the whole disk is read off the text of its
entries.  The rules that decide a path come from the places of the entries, and
there are two readings of places: by URIs and by paths of the host.  `Places` is
what both have in common, and under it the shortcuts agree with the rules.

The decisions by URIs differ in one case that the shortcuts do not see: an entry
with a hidden separator makes the policy deny every path.
-/

namespace Rexux.Permissions

open Foundation Rexux.Path List FileSystemAccessMode PathUri FileSystemSandboxPolicy FileSystemPath

/-- The rules put the access of each entry at the places of its path. -/
structure Places (policy : FileSystemSandboxPolicy) (located : FileSystemPath → List Bytes → Prop)
    (rules : List (List Bytes × FileSystemAccessMode)) : Prop where
  mem_iff : ∀ rule, rule ∈ rules ↔
    ∃ entry ∈ policy.entries, located entry.path rule.1 ∧ entry.access = rule.2
  root : ∀ place, located (.special .root) place ↔ place = []
  glob : ∀ pattern place, ¬ located (.globPattern pattern) place
  minimal : ∀ place, ¬ located (.special .minimal) place
  unknown : ∀ path subpath place, ¬ located (.special (.unknown path subpath)) place

variable {policy : FileSystemSandboxPolicy}

theorem hasSameTargetWriteOverride_iff {entry : FileSystemSandboxEntry} :
    policy.hasSameTargetWriteOverride entry ↔
      ∃ candidate ∈ policy.entries, candidate.access = .write ∧ entry.access = .read ∧
        fileSystemPathsShareTarget candidate.path entry.path := by
  have hmodes : ∀ mode other : FileSystemAccessMode,
      mode.canWrite ∧ other < mode ↔ mode = .write ∧ other = .read := by
    intro mode other
    cases mode <;> cases other <;> decide
  simp only [hasSameTargetWriteOverride, any_eq_true, Bool.and_eq_true, decide_eq_true_eq, hmodes,
    and_assoc]

section Shortcuts

variable {located : FileSystemPath → List Bytes → Prop}
  {rules : List (List Bytes × FileSystemAccessMode)} (h : Places policy located rules)
include h

theorem Places.root_mem {predicate : FileSystemAccessMode → Bool}
    (hroot : policy.hasRootAccess predicate) : ∃ mode, predicate mode ∧ ([], mode) ∈ rules := by
  simp only [hasRootAccess, Bool.and_eq_true, any_eq_true, decide_eq_true_eq] at hroot
  obtain ⟨-, entry, hentry, hpath, hmode⟩ := hroot
  refine ⟨entry.access, hmode, (h.mem_iff _).mpr ⟨entry, hentry, ?_, rfl⟩⟩
  rw [hpath]
  exact (h.root _).mpr rfl

variable (hkind : policy.kind = .restricted)
include hkind

/-- With full read access a rule that lets read decides every path. -/
theorem Places.exists_decides_of_fullRead (hfull : policy.hasFullDiskReadAccess)
    (path : List Bytes) : ∃ root mode, mode ≠ .deny ∧ Decides rules path root mode := by
  simp only [hasFullDiskReadAccess, hkind, Bool.and_eq_true] at hfull
  obtain ⟨mode, -, hroot⟩ := h.root_mem hfull.1
  obtain ⟨root, level, hdecides⟩ := exists_decides hroot nil_prefix
  refine ⟨root, level, ?_, hdecides⟩
  rintro rfl
  obtain ⟨entry, hentry, -, haccess⟩ := (h.mem_iff _).mp hdecides.mem
  have hdenied : policy.hasDeniedReadRestrictions := by
    simp only [hasDeniedReadRestrictions, hkind, decide_true,
      Bool.true_and, any_eq_true, decide_eq_true_eq]
    exact ⟨entry, hentry, haccess⟩
  rw [hdenied] at hfull
  cases hfull.2

/-- With full write access a rule that lets write decides every path. -/
theorem Places.exists_decides_of_fullWrite (hfull : policy.hasFullDiskWriteAccess)
    (hshadowed : ∀ entry ∈ policy.entries, policy.hasSameTargetWriteOverride entry →
      ∀ place, located entry.path place → (place, .write) ∈ rules)
    (path : List Bytes) : ∃ root, Decides rules path root .write := by
  simp only [hasFullDiskWriteAccess, hkind, Bool.and_eq_true, Bool.not_eq_true'] at hfull
  obtain ⟨hroot, hnarrow⟩ := hfull
  obtain ⟨mode, hmode, hroot⟩ := h.root_mem hroot
  obtain rfl := canWrite_iff.mp hmode
  obtain ⟨root, level, hdecides⟩ :=
    exists_decides hroot (show ([] : List Bytes) <+: path from nil_prefix)
  obtain ⟨entry, hentry, hplace, haccess⟩ := (h.mem_iff _).mp hdecides.mem
  dsimp only at hplace haccess
  by_cases hwrite : level = .write
  · exact ⟨root, hwrite ▸ hdecides⟩
  -- A deciding entry without write access would narrow the policy.
  simp only [hasWriteNarrowingEntries, hkind, decide_true, Bool.true_and, any_eq_false] at hnarrow
  have hkept := hnarrow entry hentry
  have hcannot : entry.access.canWrite = false := by
    rw [Bool.eq_false_iff]
    intro hcan
    exact hwrite (haccess.symm.trans (canWrite_iff.mp hcan))
  have hno : policy.hasSameTargetWriteOverride entry = false := by
    rw [Bool.eq_false_iff]
    intro hany
    have hle : write ≤ level :=
      hdecides.strongest _ (hshadowed entry hentry hany root hplace) rfl
    obtain ⟨-, -, -, hread, -⟩ := hasSameTargetWriteOverride_iff.mp hany
    rw [← haccess, hread] at hle
    exact absurd hle (by decide)
  rw [hcannot] at hkept
  cases hpath : entry.path with
  | path uri => simp [hpath, hno] at hkept
  | globPattern pattern => exact (h.glob _ _ (hpath ▸ hplace)).elim
  | special value =>
    rw [hpath] at hkept hplace
    cases value with
    | root =>
      -- The root is writable, so only a denial could decide it.
      obtain rfl := (h.root _).mp hplace
      have hle : write ≤ level := hdecides.strongest _ hroot rfl
      cases level with
      | read => exact absurd hle (by decide)
      | write => exact absurd rfl hwrite
      | deny => simp [haccess] at hkept
    | minimal => exact (h.minimal _ hplace).elim
    | unknown name subpath => exact (h.unknown _ _ _ hplace).elim
    | projectRoots | tmpdir | slashTmp => simp [hno] at hkept

end Shortcuts

/-- The URI of the path has these components. -/
def LocatedByUri (context : FileSystemSandboxPolicyContext) (path : FileSystemPath)
    (place : List Bytes) : Prop :=
  ∃ uri ∈ path.resolve context, uri.IsPlain ∧ uri.components = place

theorem isOrdinary_slashTmp : slashTmp.IsOrdinary := by
  refine ⟨?_, by decide⟩
  intro component hcomponent
  obtain rfl := mem_singleton.mp hcomponent
  decide

theorem specialPathMatches_cases {value : FileSystemSpecialPath} {path : AbsolutePath}
    (h : specialPathMatchesAbsolutePath value path) :
    value = .root ∧ path = .root ∨ value = .slashTmp ∧ path = slashTmp := by
  cases value with
  | root => exact .inl ⟨rfl, AbsolutePath.ext (List.isEmpty_iff.mp h)⟩
  | slashTmp => exact .inr ⟨rfl, AbsolutePath.ext (of_decide_eq_true h)⟩
  | minimal | projectRoots | tmpdir | unknown => cases h

section ByUri

variable {context : FileSystemSandboxPolicyContext}

theorem locatedByUri_slashTmp_iff (hposix : context.HasPosixCwd) (place : List Bytes) :
    LocatedByUri context (.special .slashTmp) place ↔ place = slashTmp.components := by
  obtain ⟨hplain, hcomponents⟩ := fromAbsPath_of_ordinary isOrdinary_slashTmp
  simp only [LocatedByUri, resolve, hposix, join_slashTmp]
  constructor
  · rintro ⟨uri, huri, -, rfl⟩
    rw [← hcomponents, Option.some.inj (Option.mem_toList.mp huri)]
  · rintro rfl
    exact ⟨_, Option.mem_toList.mpr rfl, hplain, hcomponents⟩

section

variable (hcwd : context.cwd.IsPlain)
include hcwd

theorem locatedByUri_root_iff (place : List Bytes) :
    LocatedByUri context (.special .root) place ↔ place = [] := by
  obtain ⟨hplain, hempty⟩ := hcwd.rootAncestor_spec
  simp only [LocatedByUri, resolve, fileSystemRoot_of_plain hcwd,
    Option.toList_some, mem_singleton, exists_eq_left, hplain, hempty, true_and, eq_comm]

theorem places_rules : Places policy (LocatedByUri context) (policy.rules context) where
  mem_iff rule := by
    rw [mem_rules hcwd.posix]
    constructor
    · rintro ⟨uri, hmem, hplain, hcomponents⟩
      obtain ⟨entry, hentry, hresolved⟩ := mem_flatMap.mp hmem
      obtain ⟨_, huri, heq⟩ := mem_map.mp hresolved
      obtain ⟨rfl, haccess⟩ := Prod.mk.inj heq
      exact ⟨entry, hentry, ⟨_, (mem_filter.mp huri).1, hplain, hcomponents⟩, haccess⟩
    · rintro ⟨entry, hentry, ⟨uri, huri, hplain, hcomponents⟩, haccess⟩
      refine ⟨uri, mem_flatMap.mpr ⟨entry, hentry, ?_⟩, hplain, hcomponents⟩
      rw [← haccess]
      refine mem_map.mpr ⟨uri, mem_filter.mpr ⟨huri, ?_⟩, rfl⟩
      simp [hplain.posix, hcwd.posix]
  root := locatedByUri_root_iff hcwd
  glob _ _ := by simp [LocatedByUri, resolve]
  minimal _ := by simp [LocatedByUri, resolve]
  unknown _ _ _ := by simp [LocatedByUri, resolve]

theorem locatedByUri_of_matches {value : FileSystemSpecialPath} {path : AbsolutePath}
    {place : List Bytes} (hmatch : specialPathMatchesAbsolutePath value path) :
    LocatedByUri context (.special value) place ↔ path.IsOrdinary ∧ path.components = place := by
  rcases specialPathMatches_cases hmatch with ⟨rfl, rfl⟩ | ⟨rfl, rfl⟩
  · rw [locatedByUri_root_iff hcwd, eq_comm]
    exact (and_iff_right (by decide)).symm
  · rw [locatedByUri_slashTmp_iff hcwd.posix, eq_comm]
    exact (and_iff_right isOrdinary_slashTmp).symm

/-- A path that shares the target of another is where that is, unless its URI hides a
separator.  The opaque spelling of an ordinary path is no path of the host. -/
theorem locatedByUri_of_shareTarget {left right : FileSystemPath} {place : List Bytes}
    (hknown : ∀ uri, left = .path uri → uri.inferPathConvention = some .posix →
      isAmbiguous uri = false)
    (hshare : fileSystemPathsShareTarget left right) (hplace : LocatedByUri context right place) :
    LocatedByUri context left place := by
  match left, right, hshare with
  | .path uri, .path other, hshare =>
    obtain ⟨_, huri, hplain, hcomponents⟩ := hplace
    obtain rfl := mem_singleton.mp huri
    rw [fileSystemPathsShareTarget, sameUri_comm, sameUri_iff_of_posix hplain.posix] at hshare
    exact hshare ▸ ⟨_, huri, hplain, hcomponents⟩
  | .special value, .special other, hshare =>
    obtain rfl : value = other := by simpa [fileSystemPathsShareTarget] using hshare
    exact hplace
  | .path uri, .special value, hshare =>
    obtain ⟨path, hpath, hmatch⟩ := (Option.any_eq_true ..).mp hshare
    obtain ⟨hordinary, rfl⟩ := (locatedByUri_of_matches hcwd hmatch).mp hplace
    obtain ⟨_, huri, hplain, hcomponents⟩ :=
      (sameOrdinaryPath_of_path (hknown uri rfl)).toUri path hpath hordinary
    obtain rfl := Option.some.inj huri
    exact ⟨_, mem_singleton_self _, hplain, hcomponents⟩
  | .special value, .path uri, hshare =>
    obtain ⟨_, huri, hplain, rfl⟩ := hplace
    obtain rfl := mem_singleton.mp huri
    obtain ⟨path, hpath, hcomponents⟩ := hplain.toAbsPath_spec
    simp only [fileSystemPathsShareTarget, hpath] at hshare
    have hordinary : path.IsOrdinary := by
      rcases specialPathMatches_cases hshare with ⟨-, rfl⟩ | ⟨-, rfl⟩
      · decide
      · exact isOrdinary_slashTmp
    exact (locatedByUri_of_matches hcwd hshare).mpr ⟨hordinary, hcomponents⟩

end

section

variable (hkind : policy.kind = .restricted)
include hkind

theorem canRead_of_fullRead (hcwd : context.cwd.IsPlain) (hcomparable : policy.IsComparable context)
    (hfull : policy.hasFullDiskReadAccess) {path : PathUri} (hpath : path.IsPlain) :
    (policy.resolveAccess path context).canRead := by
  obtain ⟨root, mode, hmode, hdecides⟩ :=
    (places_rules hcwd).exists_decides_of_fullRead hkind hfull path.components
  rw [resolveAccess_of_decides hkind hcwd hpath hcomparable hdecides]
  exact canRead_iff.mpr hmode

theorem canWritePath_of_fullWrite (hcwd : context.cwd.IsPlain)
    (hcomparable : policy.IsComparable context) (hfull : policy.hasFullDiskWriteAccess)
    {path : PathUri} (hpath : path.IsPlain) :
    policy.canWritePath path context := by
  have hplaces : Places policy (LocatedByUri context) (policy.rules context) := places_rules hcwd
  obtain ⟨root, hdecides⟩ := hplaces.exists_decides_of_fullWrite hkind hfull (by
      intro entry hentry hany place hplace
      obtain ⟨candidate, hcandidate, hwrite, -, hshare⟩ := hasSameTargetWriteOverride_iff.mp hany
      have hlocated : LocatedByUri context candidate.path place := by
        refine locatedByUri_of_shareTarget hcwd (fun uri huri hposix => ?_) hshare hplace
        have hresolved : (uri, candidate.access) ∈ policy.resolvedEntries context := by
          refine mem_flatMap.mpr ⟨candidate, hcandidate, ?_⟩
          simp [FileSystemSandboxEntry.resolve, huri, resolve, hposix, hcwd.posix]
        exact hcomparable _ hresolved
      exact (hplaces.mem_iff _).mpr ⟨candidate, hcandidate, hlocated, hwrite⟩) path.components
  exact policy.canWritePath_iff_write.mpr
    ⟨resolveAccess_of_decides hkind hcwd hpath hcomparable hdecides, .inl hfull⟩

end

/-- Full access means that every path may be read or written exactly if the working
directory and the paths of the entries can be compared with others. -/
theorem full_access_sound_iff (hkind : policy.kind = .restricted) (hposix : context.IsPosix) :
    (policy.hasFullDiskReadAccess = true →
      ((∀ path : PathUri, path.IsPlain → (policy.resolveAccess path context).canRead = true) ↔
        context.cwd.IsPlain ∧ policy.IsComparable context)) ∧
    (policy.hasFullDiskWriteAccess = true →
      ((∀ path : PathUri, path.IsPlain → policy.canWritePath path context = true) ↔
        context.cwd.IsPlain ∧ policy.IsComparable context)) := by
  have hplain := (fromAbsPath_of_ordinary isOrdinary_slashTmp).1
  constructor
  · refine fun hfull => ⟨fun hall => ?_, fun ⟨hcwd, hcomparable⟩ _ hpath =>
      canRead_of_fullRead hkind hcwd hcomparable hfull hpath⟩
    have hread := hall _ hplain
    obtain ⟨root, hgrants⟩ := exists_grants hkind hposix.cwd (canRead_iff.mp hread)
    exact ⟨hgrants.plainCwd, hgrants.comparable⟩
  · refine fun hfull => ⟨fun hall => ?_, fun ⟨hcwd, hcomparable⟩ _ hpath =>
      canWritePath_of_fullWrite hkind hcwd hcomparable hfull hpath⟩
    have hwrite := (policy.canWritePath_iff_write.mp (hall _ hplain)).1
    obtain ⟨root, hgrants⟩ := exists_grants hkind hposix.cwd
      (show policy.resolveAccess (fromAbsPath slashTmp) context ≠ .deny by rw [hwrite]; decide)
    exact ⟨hgrants.plainCwd, hgrants.comparable⟩

end ByUri

def plainDirectory : PathUri := ⟨none, ["a".toList], .refl true⟩

theorem plainDirectory_isPlain : plainDirectory.IsPlain := ⟨by decide, by decide, by decide⟩

def plainContext : FileSystemSandboxPolicyContext := ⟨plainDirectory, [], none, none⟩

theorem plainContext_isPosix : plainContext.IsPosix :=
  ⟨by decide, fun _ hroot => absurd hroot not_mem_nil⟩

/-- The root may be written, and a write entry stands over one that reads `/tmp`. -/
def shadowedTmpPolicy : FileSystemSandboxPolicy :=
  .restricted [.new (.special .root) .write, .new (.special .slashTmp) .read,
    .new (.path ⟨none, ["tmp".toList], by decide⟩) .write]

/-- A denied directory that is writable under another name does not count. -/
theorem shadowed_tmp_is_full_access :
    shadowedTmpPolicy.hasFullDiskWriteAccess = true ∧
      ∀ path : PathUri, path.IsPlain →
        shadowedTmpPolicy.canWritePath path plainContext = true := by
  have hfull : shadowedTmpPolicy.hasFullDiskWriteAccess = true := by decide
  exact ⟨hfull, ((full_access_sound_iff rfl plainContext_isPosix).2 hfull).mpr
    ⟨plainDirectory_isPlain, by unfold IsComparable; decide⟩⟩

/-- The root may be read, and so may a path with a hidden separator. -/
def hiddenSeparatorPolicy : FileSystemSandboxPolicy :=
  .restricted [.new (.special .root) .read, .new (.path ⟨none, ["a%2Fb".toList], by decide⟩) .read]

/-- An entry with a hidden separator: full access, and every path is denied. -/
theorem full_read_access_denies :
    hiddenSeparatorPolicy.hasFullDiskReadAccess = true ∧ plainDirectory.IsPlain ∧
      hiddenSeparatorPolicy.resolveAccess plainDirectory plainContext = .deny :=
  ⟨by decide, plainDirectory_isPlain, by decide⟩

end Rexux.Permissions
