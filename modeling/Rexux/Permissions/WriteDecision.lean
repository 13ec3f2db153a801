import Mathlib.Data.List.Find
import Rexux.Path.AbsolutePath
import Rexux.Permissions.Policy

/-!
# Write decisions

A path may be written if its access is `write` and it is not metadata of a
writable root.  The metadata rule takes the first writable entry that has the
path below one of its protected names, and is lifted by a writable entry at or
below that name.

On the rules of a policy the outcome can be said without the search: the path is
decided by a writable root, and it is refused exactly if it lies below a
protected name of that root and the root is not itself below a protected name of
an entry that is listed before it (`Shielded`).
-/

namespace Rexux.Permissions

open Foundation Rexux.Path List FileSystemAccessMode

def protectedMetadataPathNames : List Text := [".git".toList, ".agents".toList, ".rexux".toList]

variable {name : Text}

theorem isPlainName_of_mem (h : name ∈ protectedMetadataPathNames) : PathUri.IsPlainName name := by
  simp only [protectedMetadataPathNames, mem_cons, not_mem_nil, or_false] at h
  rcases h with rfl | rfl | rfl <;> constructor <;> decide

theorem utf8Bytes_injective_of_mem {other : Text} (hname : name ∈ protectedMetadataPathNames)
    (hother : other ∈ protectedMetadataPathNames)
    (h : utf8Bytes name = utf8Bytes other) : name = other := by
  have hall : ∀ name ∈ protectedMetadataPathNames, ∀ other ∈ protectedMetadataPathNames,
      utf8Bytes name = utf8Bytes other → name = other := by
    decide
  exact hall name hname other hother h

/-- Special paths that are the same place in every context. -/
def specialPathMatchesAbsolutePath (value : FileSystemSpecialPath) (path : AbsolutePath) : Bool :=
  match value with
  | .root => path.components.isEmpty
  | .slashTmp => path.components = [utf8Bytes "tmp".toList]
  | _ => false

def fileSystemPathsShareTarget : FileSystemPath → FileSystemPath → Bool
  | .path left, .path right => left.sameUri right
  | .special left, .special right => left = right
  | .path path, .special value => path.toAbsPath.any (specialPathMatchesAbsolutePath value)
  | .special value, .path path => path.toAbsPath.any (specialPathMatchesAbsolutePath value)
  | .globPattern left, .globPattern right => left = right
  | .globPattern _, _ => false
  | _, .globPattern _ => false

namespace FileSystemSandboxPolicy

variable (policy : FileSystemSandboxPolicy)

def hasRootAccess (predicate : FileSystemAccessMode → Bool) : Bool :=
  policy.kind = .restricted &&
    policy.entries.any fun entry => entry.path = .special .root && predicate entry.access

def hasDeniedReadRestrictions : Bool :=
  policy.kind = .restricted && policy.entries.any (·.access = .deny)

def hasSameTargetWriteOverride (entry : FileSystemSandboxEntry) : Bool :=
  policy.entries.any fun candidate =>
    candidate.access.canWrite && entry.access < candidate.access &&
      fileSystemPathsShareTarget candidate.path entry.path

def hasWriteNarrowingEntries : Bool :=
  policy.kind = .restricted &&
    policy.entries.any fun entry =>
      if entry.access.canWrite then false
      else
        match entry.path with
        | .path _ => !policy.hasSameTargetWriteOverride entry
        | .globPattern _ => true
        | .special .root => entry.access = .deny
        | .special .minimal => false
        | .special (.unknown _ _) => false
        | .special _ => !policy.hasSameTargetWriteOverride entry

def hasFullDiskReadAccess : Bool :=
  match policy.kind with
  | .unrestricted => true
  | .externalSandbox => true
  | .restricted => policy.hasRootAccess canRead && !policy.hasDeniedReadRestrictions

def hasFullDiskWriteAccess : Bool :=
  match policy.kind with
  | .unrestricted => true
  | .externalSandbox => true
  | .restricted => policy.hasRootAccess canWrite && !policy.hasWriteNarrowingEntries

/-- The protected child of a root that contains a path. -/
def protectedChild (path root : PathUri) : Option (PathUri × Text) :=
  protectedMetadataPathNames.findSome? fun name =>
    match root.joinDescendant name with
    | .ok child => if path.startsWith child then some (child, name) else none
    | .error _ => none

def metadataWriteDenial (path : PathUri) (context : FileSystemSandboxPolicyContext) : Option Text :=
  if policy.kind ≠ .restricted then none
  else
    let entries := policy.resolvedEntries context
    match (entries.filter (·.2.canWrite)).findSome? (protectedChild path ·.1) with
    | none => none
    | some (child, name) =>
      if entries.any fun entry =>
          entry.2.canWrite && path.startsWith entry.1 && entry.1.startsWith child
      then none
      else some name

def canWritePath (path : PathUri) (context : FileSystemSandboxPolicyContext) : Bool :=
  if !(policy.resolveAccess path context).canWrite then false
  else policy.hasFullDiskWriteAccess || (policy.metadataWriteDenial path context).isNone

theorem canWritePath_iff_write {path : PathUri} {context : FileSystemSandboxPolicyContext} :
    policy.canWritePath path context ↔ policy.resolveAccess path context = .write ∧
      (policy.hasFullDiskWriteAccess ∨ (policy.metadataWriteDenial path context).isNone) := by
  simp [canWritePath, canWrite_iff]

end FileSystemSandboxPolicy

/-! ## The metadata rule on components -/

def protectedNames : List Bytes := protectedMetadataPathNames.map utf8Bytes

/-- The path lies at or below a protected name of the root. -/
def IsMetadata (root path : List Bytes) : Prop := ∃ name ∈ protectedNames, root ++ [name] <+: path

instance (root path : List Bytes) : Decidable (IsMetadata root path) :=
  inferInstanceAs (Decidable (∃ name ∈ protectedNames, root ++ [name] <+: path))

def writeRoots (rules : List (List Bytes × FileSystemAccessMode)) : List (List Bytes) :=
  (rules.filter (·.2.canWrite)).map Prod.fst

/-- An entry that is listed before the root has the root among its metadata. -/
def Shielded (rules : List (List Bytes × FileSystemAccessMode)) (root : List Bytes) : Prop :=
  (writeRoots rules).find? (fun other => other = root ∨ IsMetadata other root) ≠ some root

instance (rules : List (List Bytes × FileSystemAccessMode)) (root : List Bytes) :
    Decidable (Shielded rules root) :=
  inferInstanceAs (Decidable (_ ≠ _))

variable {rules : List (List Bytes × FileSystemAccessMode)} {root : List Bytes}

theorem mem_writeRoots : root ∈ writeRoots rules ↔ (root, .write) ∈ rules := by
  simp only [writeRoots, mem_map, mem_filter]
  constructor
  · rintro ⟨⟨path, mode⟩, ⟨hmem, hwrite⟩, rfl⟩
    obtain rfl : mode = .write := canWrite_iff.mp hwrite
    exact hmem
  · intro hmem
    exact ⟨(root, .write), ⟨hmem, rfl⟩, rfl⟩

namespace FileSystemSandboxPolicy

/-- The child found for a root is one of its protected names. -/
structure IsProtectedChild (path child : PathUri) (name : Text) (root : List Bytes) : Prop where
  plain : child.IsPlain
  isProtected : name ∈ protectedMetadataPathNames
  components : child.components = root ++ [utf8Bytes name]
  above : child.components <+: path.components

theorem protectedChild_of_not_plain {root : PathUri} (path : PathUri)
    (hposix : root.inferPathConvention = some .posix)
    (h : ¬ root.IsPlain) : protectedChild path root = none := by
  rw [protectedChild, findSome?_eq_none_iff]
  intro name hname
  obtain ⟨error, herror⟩ := PathUri.joinDescendant_of_not_plain hposix h (isPlainName_of_mem hname)
  rw [herror]

theorem isPlain_of_protectedChild {path root : PathUri} {found : PathUri × Text}
    (hposix : root.inferPathConvention = some .posix)
    (h : protectedChild path root = some found) : path.IsPlain := by
  have hroot : root.IsPlain := by
    by_contra hnot
    rw [protectedChild_of_not_plain path hposix hnot] at h
    cases h
  obtain ⟨name, hname, hsome⟩ := exists_of_findSome?_eq_some h
  obtain ⟨child, hjoin, hchild, -⟩ := hroot.joinDescendant_plainName (isPlainName_of_mem hname)
  rw [hjoin] at hsome
  dsimp only at hsome
  split_ifs at hsome with hbelow
  exact hchild.of_startsWith_base hbelow

/-- The protected child above a path, in terms of components. -/
theorem protectedChild_spec {path root : PathUri} (hpath : path.IsPlain) (hroot : root.IsPlain) :
    protectedChild path root = none ∧ ¬ IsMetadata root.components path.components ∨
      ∃ child name, protectedChild path root = some (child, name) ∧
        IsProtectedChild path child name root.components := by
  cases hfound : protectedChild path root with
  | none =>
    refine .inl ⟨rfl, ?_⟩
    rintro ⟨bytes, hbytes, habove⟩
    obtain ⟨name, hname, rfl⟩ := mem_map.mp hbytes
    obtain ⟨child, hjoin, hplain, hcomponents⟩ :=
      hroot.joinDescendant_plainName (isPlainName_of_mem hname)
    have hnone := findSome?_eq_none_iff.mp hfound name hname
    rw [hjoin] at hnone
    have hbelow : path.startsWith child := by
      rw [hpath.startsWith_iff hplain, hcomponents]
      exact habove
    simp [hbelow] at hnone
  | some found =>
    obtain ⟨child, name⟩ := found
    obtain ⟨candidate, hcandidate, hsome⟩ := exists_of_findSome?_eq_some hfound
    obtain ⟨joined, hjoin, hplain, hcomponents⟩ :=
      hroot.joinDescendant_plainName (isPlainName_of_mem hcandidate)
    rw [hjoin] at hsome
    dsimp only at hsome
    split_ifs at hsome with hbelow
    obtain ⟨rfl, rfl⟩ := Prod.mk.inj (Option.some.inj hsome)
    exact .inr ⟨joined, candidate, rfl, hplain, hcandidate, hcomponents,
      (hpath.startsWith_iff hplain).mp hbelow⟩

theorem findProtectedChild_spec {path : PathUri} {entries : List (PathUri × FileSystemAccessMode)}
    (hpath : path.IsPlain) (hposix : ∀ entry ∈ entries, entry.1.inferPathConvention = some .posix) :
    ((entries.filter (·.2.canWrite)).findSome? (protectedChild path ·.1) = none ∧
        (writeRoots (lexicalRules entries)).find? (IsMetadata · path.components) = none) ∨
      ∃ child name root,
        (entries.filter (·.2.canWrite)).findSome? (protectedChild path ·.1) = some (child, name) ∧
        (writeRoots (lexicalRules entries)).find? (IsMetadata · path.components) = some root ∧
        IsProtectedChild path child name root := by
  induction entries with
  | nil => exact .inl ⟨rfl, rfl⟩
  | cons entry entries ih =>
    obtain ⟨uri, mode⟩ := entry
    rw [forall_mem_cons] at hposix
    have ih := ih hposix.2
    by_cases hwrite : mode.canWrite
    · cases hdepth : uri.lexicalDepth with
      | none =>
        -- Roots without components have no children.
        have hnot : ¬ uri.IsPlain := by
          intro hplain
          rw [hplain.lexicalDepth_eq] at hdepth
          cases hdepth
        have hnone := protectedChild_of_not_plain path hposix.1 hnot
        simpa [lexicalRules, hdepth, hwrite, hnone] using ih
      | some depth =>
        have hplain := (PathUri.isPlain_of_lexicalDepth hposix.1 hdepth).1
        rcases protectedChild_spec hpath hplain with
          ⟨hnone, hmetadata⟩ | ⟨child, name, hsome, hchild⟩
        · simpa [lexicalRules, writeRoots, hwrite, hnone, hmetadata] using ih
        · have hmetadata : IsMetadata uri.components path.components :=
            ⟨utf8Bytes name, mem_map_of_mem hchild.isProtected, hchild.components ▸ hchild.above⟩
          refine .inr ⟨child, name, uri.components, ?_, ?_, hchild⟩
          · simp [hwrite, hsome]
          · simp [lexicalRules, writeRoots, hdepth, hwrite, hmetadata]
    · cases hdepth : uri.lexicalDepth with
      | none | some => simpa [lexicalRules, writeRoots, hwrite] using ih

end FileSystemSandboxPolicy

theorem IsMetadata.root_prefix {path : List Bytes} (h : IsMetadata root path) : root <+: path := by
  obtain ⟨name, -, hbegins⟩ := h
  exact (prefix_append root [name]).trans hbegins

theorem length_lt_of_strict {l l' : List Bytes} (h : l <+: l') (hne : l ≠ l') :
    l.length < l'.length :=
  lt_of_le_of_ne h.length_le fun hlength => hne (h.eq_of_length hlength)

theorem child_prefix_of_ne {other path : List Bytes} {child : Bytes}
    (hchild : other ++ [child] <+: path) (hroot : root <+: path) (hother : other <+: root)
    (hne : other ≠ root) : other ++ [child] <+: root := by
  refine prefix_of_prefix_length_le hchild hroot ?_
  rw [length_append]
  exact length_lt_of_strict hother hne

/-- A writable root at or below the protected child contains the path. -/
def Lifted (roots : List (List Bytes)) (child path : List Bytes) : Prop :=
  ∃ root ∈ roots, root <+: path ∧ child <+: root

/-- The metadata rule on components: the first root with the path among its
metadata, unless the protection is lifted. -/
structure DeniedBy (roots : List (List Bytes)) (path root : List Bytes) (name : Text) : Prop where
  first : roots.find? (IsMetadata · path) = some root
  isProtected : name ∈ protectedMetadataPathNames
  above : root ++ [utf8Bytes name] <+: path
  notLifted : ¬ Lifted roots (root ++ [utf8Bytes name]) path

variable {roots : List (List Bytes)}

theorem DeniedBy.mem {path : List Bytes}
    (h : DeniedBy roots path root name) : root ∈ roots :=
  mem_of_find?_eq_some h.first

section Denial

variable {path : List Bytes}

theorem find_isMetadata_eq
    (hdeepest : ∀ other ∈ roots, other <+: path → other <+: root) (habove : root <+: path)
    (hmetadata : IsMetadata root path) :
    roots.find? (IsMetadata · path) =
      roots.find? (fun other => other = root ∨ IsMetadata other root) := by
  apply find?_congr
  intro other hother
  rw [decide_eq_decide]
  constructor
  · intro hpath
    have habove' := hdeepest other hother hpath.root_prefix
    obtain ⟨name, hname, hbegins⟩ := hpath
    by_cases hne : other = root
    · exact .inl hne
    · exact .inr ⟨name, hname, child_prefix_of_ne hbegins habove habove' hne⟩
  · rintro (rfl | ⟨name, hname, hbegins⟩)
    · exact hmetadata
    · exact ⟨name, hname, hbegins.trans habove⟩

theorem exists_deniedBy_iff (hdecides : Decides rules path root .write) :
    (∃ other name, DeniedBy (writeRoots rules) path other name) ↔
      ¬ Shielded rules root ∧ IsMetadata root path := by
  have hdeepest : ∀ other ∈ writeRoots rules, other <+: path → other <+: root :=
    fun other hother => hdecides.deepest _ (mem_writeRoots.mp hother)
  have hroot : root ∈ writeRoots rules := mem_writeRoots.mpr hdecides.mem
  constructor
  · rintro ⟨other, name, h⟩
    have hmetadata : IsMetadata other path := ⟨_, mem_map_of_mem h.isProtected, h.above⟩
    have hother := hdeepest other h.mem hmetadata.root_prefix
    by_cases hequal : other = root
    · subst hequal
      have hfind := find_isMetadata_eq hdeepest hdecides.above hmetadata
      refine ⟨?_, hmetadata⟩
      rw [Shielded, ← hfind]
      exact not_not.mpr h.first
    · -- The deciding root lies below the protected name and lifts the protection.
      exact absurd ⟨root, hroot, hdecides.above,
        child_prefix_of_ne h.above hdecides.above hother hequal⟩ h.notLifted
  · rintro ⟨hshielded, hmetadata⟩
    have hfind := find_isMetadata_eq hdeepest hdecides.above hmetadata
    rw [Shielded, ← hfind, not_not] at hshielded
    obtain ⟨bytes, hbytes, hbegins⟩ := hmetadata
    obtain ⟨name, hname, rfl⟩ := mem_map.mp hbytes
    refine ⟨root, name, hshielded, hname, hbegins, ?_⟩
    rintro ⟨other, hother, hpath, hbelow⟩
    have hlength := (hbelow.trans (hdeepest other hother hpath)).length_le
    rw [length_append, length_singleton] at hlength
    omega

end Denial

namespace FileSystemSandboxPolicy

variable {policy : FileSystemSandboxPolicy} {context : FileSystemSandboxPolicyContext}
  {path : PathUri}

theorem any_lifts_iff {child : PathUri} (hposix : context.HasPosixCwd)
    (hpath : path.IsPlain) (hchild : child.IsPlain) :
    ((policy.resolvedEntries context).any fun entry =>
        entry.2.canWrite && path.startsWith entry.1 && entry.1.startsWith child) ↔
      Lifted (writeRoots (policy.rules context)) child.components path.components := by
  rw [any_eq_true]
  constructor
  · rintro ⟨⟨uri, mode⟩, hmem, hentry⟩
    simp only [Bool.and_eq_true] at hentry
    obtain ⟨⟨hwrite, hbelow⟩, habove⟩ := hentry
    have huri := hpath.of_startsWith hbelow
    refine ⟨uri.components, mem_writeRoots.mpr ((mem_rules hposix).mpr ⟨uri, ?_, huri, rfl⟩),
      (hpath.startsWith_iff huri).mp hbelow, (huri.startsWith_iff hchild).mp habove⟩
    rw [← canWrite_iff.mp hwrite]
    exact hmem
  · rintro ⟨root, hroot, hbelow, habove⟩
    obtain ⟨uri, hmem, huri, rfl⟩ := (mem_rules hposix).mp (mem_writeRoots.mp hroot)
    refine ⟨(uri, .write), hmem, ?_⟩
    simp only [Bool.and_eq_true]
    exact ⟨⟨rfl, (hpath.startsWith_iff huri).mpr hbelow⟩, (huri.startsWith_iff hchild).mpr habove⟩

/-- The first write root with metadata above the path is the one that denies. -/
theorem metadataWriteDenial_eq_some_iff (hkind : policy.kind = .restricted)
    (hposix : context.HasPosixCwd) (hpath : path.IsPlain) :
    policy.metadataWriteDenial path context = some name ↔
      ∃ root, DeniedBy (writeRoots (policy.rules context)) path.components root name := by
  have hentries : ∀ entry ∈ policy.resolvedEntries context,
      entry.1.inferPathConvention = some .posix :=
    fun _ => resolvedEntries_posix hposix
  have hfound := findProtectedChild_spec hpath hentries
  change _ ∧ (writeRoots (policy.rules context)).find? _ = none ∨
    ∃ child name root, _ ∧ (writeRoots (policy.rules context)).find? _ = some root ∧ _
    at hfound
  unfold metadataWriteDenial
  rw [if_neg (by simp [hkind])]
  dsimp only
  rcases hfound with ⟨hnone, hfind⟩ | ⟨child, found, first, hsome, hfind, hchild⟩
  · rw [hnone]
    simp only [reduceCtorEq, false_iff, not_exists]
    intro root h
    rw [h.first] at hfind
    cases hfind
  · rw [hsome]
    dsimp only
    have hlifts := @any_lifts_iff policy context path child hposix hpath hchild.plain
    -- The protected names of a root are told apart by the path.
    have hname : ∀ root name, DeniedBy (writeRoots (policy.rules context))
        path.components root name → root = first ∧ name = found := by
      intro root name h
      obtain rfl := Option.some.inj (h.first.symm.trans hfind)
      refine ⟨rfl, ?_⟩
      have habove := hchild.above
      rw [hchild.components] at habove
      have heq := prefix_of_prefix_length_le h.above habove (by simp)
      rw [prefix_append_right_inj, cons_prefix_cons] at heq
      exact utf8Bytes_injective_of_mem h.isProtected hchild.isProtected heq.1
    by_cases hlifted : Lifted (writeRoots (policy.rules context)) child.components path.components
    · rw [if_pos (hlifts.mpr hlifted)]
      simp only [reduceCtorEq, false_iff, not_exists]
      intro root h
      obtain ⟨rfl, rfl⟩ := hname root name h
      rw [hchild.components] at hlifted
      exact h.notLifted hlifted
    · rw [if_neg (mt hlifts.mp hlifted), Option.some.injEq]
      constructor
      · rintro rfl
        refine ⟨first, hfind, hchild.isProtected, ?_, ?_⟩
        · rw [← hchild.components]
          exact hchild.above
        · rwa [← hchild.components]
      · rintro ⟨root, h⟩
        exact (hname root name h).2.symm

theorem metadataWriteDenial_of_not_plain (hposix : context.HasPosixCwd)
    (hpath : ¬ path.IsPlain) : policy.metadataWriteDenial path context = none := by
  unfold metadataWriteDenial
  split
  · rfl
  · have hnone : ((policy.resolvedEntries context).filter (·.2.canWrite)).findSome?
        (protectedChild path ·.1) = none := by
      rw [findSome?_eq_none_iff]
      intro entry hentry
      have hentry := resolvedEntries_posix hposix (mem_filter.mp hentry).1
      cases hchild : protectedChild path entry.1 with
      | none => rfl
      | some found => exact absurd (isPlain_of_protectedChild hentry hchild) hpath
    simp [hnone]

theorem metadataWriteDenial_isNone_iff (hkind : policy.kind = .restricted)
    (hposix : context.HasPosixCwd) (hpath : path.IsPlain)
    (hdecides : Decides (policy.rules context) path.components root .write) :
    (policy.metadataWriteDenial path context).isNone ↔
      (Shielded (policy.rules context) root ∨ ¬ IsMetadata root path.components) := by
  have hdenied := exists_deniedBy_iff hdecides
  rw [Option.isNone_iff_eq_none, Option.eq_none_iff_forall_ne_some]
  simp only [ne_eq, metadataWriteDenial_eq_some_iff hkind hposix hpath]
  constructor
  · intro h
    by_contra hnot
    push Not at hnot
    obtain ⟨root, name, hroot⟩ := hdenied.mpr hnot
    exact h name ⟨root, hroot⟩
  · rintro hallowed name ⟨root, h⟩
    obtain ⟨hshielded, hmetadata⟩ := hdenied.mp ⟨root, name, h⟩
    exact hallowed.elim hshielded fun hnot => hnot hmetadata

/-- A write needs a rule that lets write, and no denial of metadata. -/
theorem canWritePath_iff (hkind : policy.kind = .restricted) (hposix : context.HasPosixCwd)
    (hdisk : policy.hasFullDiskWriteAccess = false) :
    policy.canWritePath path context ↔
      context.cwd.IsPlain ∧ path.IsPlain ∧ policy.IsComparable context ∧
        ∃ root, Decides (policy.rules context) path.components root .write ∧
          (Shielded (policy.rules context) root ∨ ¬ IsMetadata root path.components) := by
  constructor
  · intro h
    obtain ⟨hwrite, hdenial⟩ := policy.canWritePath_iff_write.mp h
    obtain ⟨root, hgrants⟩ := exists_grants hkind hposix
      (show policy.resolveAccess path context ≠ .deny by simp [hwrite])
    have hdecides := hgrants.decides
    rw [hwrite] at hdecides
    exact ⟨hgrants.plainCwd, hgrants.plainPath, hgrants.comparable, root, hdecides,
      (metadataWriteDenial_isNone_iff hkind hposix hgrants.plainPath hdecides).mp
        (by simpa [hdisk] using hdenial)⟩
  · rintro ⟨hcwd, hpath, hcomparable, root, hdecides, hallowed⟩
    have hwrite := resolveAccess_of_decides hkind hcwd hpath hcomparable hdecides
    have hdenial := (metadataWriteDenial_isNone_iff hkind hposix hpath hdecides).mpr hallowed
    exact policy.canWritePath_iff_write.mpr ⟨hwrite, .inr hdenial⟩

end FileSystemSandboxPolicy

end Rexux.Permissions
