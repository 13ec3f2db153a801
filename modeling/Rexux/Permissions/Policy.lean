import Rexux.Foundation.MostSpecific
import Rexux.Path.PathUri

/-!
# File system policies

A policy is a list of entries that give an access mode to a path.  Paths are
URIs, glob patterns, or tokens that take their meaning from a context: the
working directory, the workspace roots and the temporary directories.

`resolveAccess` decides a path by the deepest entry above it.  Two kinds of
entries have no components to compare: opaque URIs, which are skipped, and URIs
with an encoded separator, which make the policy deny every path.  For the
remaining entries `Policy.rules` gives the rules on components, and the decision
is the one of `Decides`.
-/

namespace Rexux.Permissions

open Foundation Rexux.Path List Option

inductive FileSystemAccessMode where
  | read
  | write
  | deny
  deriving DecidableEq, Repr

variable {mode : FileSystemAccessMode}

namespace FileSystemAccessMode

def canRead : FileSystemAccessMode → Bool
  | .deny => false
  | _ => true

def canWrite : FileSystemAccessMode → Bool
  | .write => true
  | _ => false

/-- Between equally specific entries `deny` beats `write` and `write` beats
`read`. -/
def precedence : FileSystemAccessMode → ℕ
  | .read => 0
  | .write => 1
  | .deny => 2

theorem precedence_injective : Function.Injective precedence := by
  intro a b h
  cases a <;> cases b <;> first | rfl | cases h

instance : LinearOrder FileSystemAccessMode := LinearOrder.lift' precedence precedence_injective

theorem le_deny (mode : FileSystemAccessMode) : mode ≤ deny := by
  cases mode <;> decide

theorem canRead_iff : mode.canRead ↔ mode ≠ deny := by
  cases mode <;> decide

theorem canWrite_iff : mode.canWrite ↔ mode = write := by
  cases mode <;> decide

end FileSystemAccessMode

inductive FileSystemSpecialPath where
  | root
  | minimal
  | projectRoots (subpath : Option Text)
  | tmpdir
  | slashTmp
  | unknown (path : Text) (subpath : Option Text)
  deriving DecidableEq, Repr

inductive FileSystemPath where
  | path (path : PathUri)
  | globPattern (pattern : Text)
  | special (value : FileSystemSpecialPath)
  deriving DecidableEq, Repr

def FileSystemPath.samePath : FileSystemPath → FileSystemPath → Bool
  | .path uri, .path other => uri.sameUri other
  | .globPattern pattern, .globPattern other => pattern = other
  | .special value, .special other => value = other
  | _, _ => false

inductive FileSystemSandboxEntryMissingPathBehavior where
  | skip
  deriving DecidableEq, Repr

structure FileSystemSandboxEntry where
  path : FileSystemPath
  access : FileSystemAccessMode
  missingPathBehavior : Option FileSystemSandboxEntryMissingPathBehavior
  deriving DecidableEq, Repr

namespace FileSystemSandboxEntry

def new (path : FileSystemPath) (access : FileSystemAccessMode) :
    FileSystemSandboxEntry := ⟨path, access, none⟩

def skipMissingPath (path : FileSystemPath) (access : FileSystemAccessMode) :
    FileSystemSandboxEntry := ⟨path, access, some .skip⟩

def skipsMissingPath (entry : FileSystemSandboxEntry) : Bool :=
  entry.missingPathBehavior = some .skip

def sameEntry (entry other : FileSystemSandboxEntry) : Bool :=
  entry.path.samePath other.path && entry.access = other.access &&
    entry.missingPathBehavior = other.missingPathBehavior

def isGlob (entry : FileSystemSandboxEntry) : Bool :=
  match entry.path with
  | .globPattern _ => true
  | _ => false

end FileSystemSandboxEntry

inductive FileSystemSandboxKind where
  | restricted
  | unrestricted
  | externalSandbox
  deriving DecidableEq, Repr

structure FileSystemSandboxPolicy where
  kind : FileSystemSandboxKind
  globScanMaxDepth : Option ℕ
  entries : List FileSystemSandboxEntry
  deriving DecidableEq, Repr

/-- The paths that give symbolic entries their meaning. -/
structure FileSystemSandboxPolicyContext where
  cwd : PathUri
  workspaceRoots : List PathUri
  userHomeDir : Option PathUri
  temporaryDirectories : Option (List PathUri)
  deriving DecidableEq, Repr

namespace FileSystemSandboxPolicyContext

abbrev HasPosixCwd (context : FileSystemSandboxPolicyContext) : Prop :=
  context.cwd.inferPathConvention = some .posix

/-- The context of an executor with POSIX paths. -/
structure IsPosix (context : FileSystemSandboxPolicyContext) : Prop where
  cwd : context.cwd.inferPathConvention = some .posix
  workspaceRoots :
    ∀ root ∈ context.workspaceRoots, root.inferPathConvention = some .posix

def fileSystemRoot (context : FileSystemSandboxPolicyContext) : Option PathUri :=
  match context.cwd.lexicalDepth with
  | none => none
  | some _ => some context.cwd.rootAncestor

end FileSystemSandboxPolicyContext

def projectRootPath (subpath : Option Text) (root : PathUri) : Option PathUri :=
  match subpath with
  | some subpath => (root.join subpath).toOption
  | none => some root

def FileSystemPath.resolve (path : FileSystemPath)
    (context : FileSystemSandboxPolicyContext) : List PathUri :=
  match path with
  | .path uri => [uri]
  | .globPattern _ => []
  | .special value =>
    match value with
    | .root => context.fileSystemRoot.toList
    | .projectRoots subpath => context.workspaceRoots.filterMap (projectRootPath subpath)
    | .tmpdir => context.temporaryDirectories.getD []
    | .slashTmp =>
      if context.cwd.inferPathConvention = some .posix then
        (context.cwd.join "/tmp".toList).toOption.toList
      else []
    | .minimal => []
    | .unknown _ _ => []

def FileSystemSandboxEntry.resolve (entry : FileSystemSandboxEntry)
    (context : FileSystemSandboxPolicyContext) : List (PathUri × FileSystemAccessMode) :=
  ((entry.path.resolve context).filter fun path =>
    path.inferPathConvention = context.cwd.inferPathConvention).map fun path => (path, entry.access)

/-- Entries with their depths; `none` if a path cannot be compared with others. -/
def withLexicalDepths :
    List (PathUri × FileSystemAccessMode) → Option (List (PathUri × FileSystemAccessMode × ℕ))
  | [] => some []
  | (root, access) :: rest =>
    match root.lexicalDepth with
    | some depth => (withLexicalDepths rest).map ((root, access, depth) :: ·)
    | none => if root.isOpaque then withLexicalDepths rest else none

namespace FileSystemSandboxPolicy

def restricted (entries : List FileSystemSandboxEntry) : FileSystemSandboxPolicy :=
  ⟨.restricted, none, entries⟩

def resolvedEntries (policy : FileSystemSandboxPolicy) (context : FileSystemSandboxPolicyContext) :
    List (PathUri × FileSystemAccessMode) :=
  policy.entries.flatMap (·.resolve context)

def resolveAccess (policy : FileSystemSandboxPolicy) (path : PathUri)
    (context : FileSystemSandboxPolicyContext) : FileSystemAccessMode :=
  match policy.kind with
  | .unrestricted => .write
  | .externalSandbox => .write
  | .restricted =>
    match context.cwd.inferPathConvention with
    | none => .deny
    | some convention =>
      if path.inferPathConvention ≠ some convention ||
          path.lexicalDepth.isNone || context.cwd.lexicalDepth.isNone then .deny
      else
        match withLexicalDepths (policy.resolvedEntries context) with
        | none => .deny
        | some entries =>
          match maxByKey (fun entry => toLex (entry.2.2, entry.2.1))
              (entries.filter fun entry => path.startsWith entry.1) with
          | some (_, access, _) => access
          | none => .deny

end FileSystemSandboxPolicy

def lexicalRules (entries : List (PathUri × FileSystemAccessMode)) :
    List (List Bytes × FileSystemAccessMode) :=
  (entries.filter (·.1.lexicalDepth.isSome)).map fun entry => (entry.1.components, entry.2)

/-- The path hides a separator, so its components are not known. -/
def isAmbiguous (path : PathUri) : Bool := path.lexicalDepth.isNone && !path.isOpaque

variable {entries : List (PathUri × FileSystemAccessMode)}

theorem withLexicalDepths_eq_some (h : ∀ entry ∈ entries, isAmbiguous entry.1 = false) :
    ∃ depths, withLexicalDepths entries = some depths ∧
      (∀ entry ∈ depths, (entry.1, entry.2.1) ∈ entries ∧ entry.1.lexicalDepth = some entry.2.2) ∧
      lexicalRules entries = depths.map fun entry => (entry.1.components, entry.2.1) := by
  induction entries with
  | nil => exact ⟨[], rfl, by simp, rfl⟩
  | cons entry rest ih =>
    obtain ⟨root, access⟩ := entry
    rw [forall_mem_cons] at h
    obtain ⟨depths, hdepths, hmem, hrules⟩ := ih h.2
    cases hdepth : root.lexicalDepth with
    | some depth =>
      refine ⟨(root, access, depth) :: depths, ?_, ?_, ?_⟩
      · simp [withLexicalDepths, hdepth, hdepths]
      · rw [forall_mem_cons]
        refine ⟨⟨mem_cons_self, hdepth⟩, fun e he => ?_⟩
        exact ⟨mem_cons_of_mem _ (hmem e he).1, (hmem e he).2⟩
      · rw [map_cons, ← hrules]
        simp [lexicalRules, hdepth]
    | none =>
      have hblob : root.isOpaque := by
        simpa [isAmbiguous, hdepth] using h.1
      refine ⟨depths, ?_, ?_, ?_⟩
      · simp [withLexicalDepths, hdepth, hblob, hdepths]
      · exact fun e he => ⟨mem_cons_of_mem _ (hmem e he).1, (hmem e he).2⟩
      · rw [← hrules]
        simp [lexicalRules, hdepth]

variable {entry : PathUri × FileSystemAccessMode}

theorem withLexicalDepths_eq_none (hmem : entry ∈ entries)
    (h : isAmbiguous entry.1) : withLexicalDepths entries = none := by
  induction entries with
  | nil => cases hmem
  | cons first rest ih =>
    rcases mem_cons.mp hmem with rfl | hrest
    · simp only [isAmbiguous, Bool.and_eq_true, isNone_iff_eq_none, Bool.not_eq_true'] at h
      simp [withLexicalDepths, h.1, h.2]
    · simp only [withLexicalDepths, ih hrest]
      split
      · rfl
      · split <;> rfl

namespace FileSystemSandboxPolicy

def rules (policy : FileSystemSandboxPolicy) (context : FileSystemSandboxPolicyContext) :
    List (List Bytes × FileSystemAccessMode) :=
  lexicalRules (policy.resolvedEntries context)

/-- Every entry can be compared with other paths or is skipped. -/
def IsComparable (policy : FileSystemSandboxPolicy)
    (context : FileSystemSandboxPolicyContext) : Prop :=
  ∀ entry ∈ policy.resolvedEntries context, isAmbiguous entry.1 = false

variable {policy : FileSystemSandboxPolicy} {context : FileSystemSandboxPolicyContext}
  {path : PathUri}

theorem fileSystemRoot_of_plain (hcwd : context.cwd.IsPlain) :
    context.fileSystemRoot = some context.cwd.rootAncestor := by
  simp [FileSystemSandboxPolicyContext.fileSystemRoot, hcwd.lexicalDepth_eq]

theorem resolvedEntries_posix (hposix : context.HasPosixCwd)
    (hentry : entry ∈ policy.resolvedEntries context) :
    entry.1.inferPathConvention = some .posix := by
  obtain ⟨e, -, he⟩ := mem_flatMap.mp hentry
  obtain ⟨uri, huri, rfl⟩ := mem_map.mp he
  rw [← hposix]
  exact of_decide_eq_true (mem_filter.mp huri).2

theorem mem_rules {rule : List Bytes × FileSystemAccessMode} (hposix : context.HasPosixCwd) :
    rule ∈ policy.rules context ↔
      ∃ uri, (uri, rule.2) ∈ policy.resolvedEntries context ∧ uri.IsPlain ∧
        uri.components = rule.1 := by
  constructor
  · intro h
    obtain ⟨entry, hentry, rfl⟩ := mem_map.mp h
    obtain ⟨hmem, hdepth⟩ := mem_filter.mp hentry
    obtain ⟨depth, hdepth⟩ := isSome_iff_exists.mp hdepth
    have hplain := (PathUri.isPlain_of_lexicalDepth (resolvedEntries_posix hposix hmem) hdepth).1
    exact ⟨entry.1, hmem, hplain, rfl⟩
  · rintro ⟨uri, hmem, hplain, hcomponents⟩
    refine mem_map.mpr ⟨(uri, rule.2), mem_filter.mpr ⟨hmem, ?_⟩, ?_⟩
    · simp [hplain.lexicalDepth_eq]
    · simp [hcomponents]

/-- The access to a path is that of the rule that decides it. -/
theorem resolveAccess_spec (hkind : policy.kind = .restricted) (hcwd : context.cwd.IsPlain)
    (hpath : path.IsPlain) (hcomparable : policy.IsComparable context) :
    (∃ root, Decides (policy.rules context) path.components root
        (policy.resolveAccess path context)) ∨
      policy.resolveAccess path context = .deny ∧
        ∀ rule ∈ policy.rules context, ¬ rule.1 <+: path.components := by
  obtain ⟨depths, hdepths, hmem, hrules⟩ := withLexicalDepths_eq_some hcomparable
  have hplain : ∀ entry ∈ depths, entry.1.IsPlain ∧ entry.2.2 = entry.1.components.length := by
    intro entry hentry
    exact PathUri.isPlain_of_lexicalDepth
      (resolvedEntries_posix hcwd.posix (hmem entry hentry).1) (hmem entry hentry).2
  have happlies : ∀ entry ∈ depths,
      path.startsWith entry.1 ↔ entry.1.components <+: path.components :=
    fun entry hentry => hpath.startsWith_iff (hplain entry hentry).1
  have haccess : policy.resolveAccess path context =
      match maxByKey (fun entry => toLex (entry.2.2, entry.2.1))
          (depths.filter fun entry => path.startsWith entry.1) with
      | some (_, access, _) => access
      | none => .deny := by
    unfold resolveAccess
    simp only [hkind, hcwd.posix, hpath.posix, hpath.lexicalDepth_eq,
      hcwd.lexicalDepth_eq, hdepths, ne_eq, not_true_eq_false, decide_false,
      isNone_some, Bool.or_self, Bool.false_eq_true, if_false]
  rw [haccess]
  unfold rules
  rw [hrules]
  cases hmax : maxByKey
      (fun entry : PathUri × FileSystemAccessMode × ℕ => toLex (entry.2.2, entry.2.1))
      (depths.filter fun entry => path.startsWith entry.1) with
  | none => exact .inr ⟨rfl, no_rule_of_maxByKey happlies hmax⟩
  | some chosen =>
    have hdecides : Decides (depths.map fun entry => (entry.1.components, entry.2.1))
        path.components chosen.1.components chosen.2.1 :=
      decides_of_maxByKey happlies (fun entry hentry => by rw [(hplain entry hentry).2]) hmax
    exact .inl ⟨chosen.1.components, hdecides⟩

theorem resolveAccess_of_decides {root : List Bytes}
    (hkind : policy.kind = .restricted) (hcwd : context.cwd.IsPlain) (hpath : path.IsPlain)
    (hcomparable : policy.IsComparable context)
    (h : Decides (policy.rules context) path.components root mode) :
    policy.resolveAccess path context = mode := by
  rcases resolveAccess_spec hkind hcwd hpath hcomparable with ⟨root', h'⟩ | ⟨-, hnone⟩
  · exact h'.level_unique h
  · exact absurd h.above (hnone _ h.mem)

variable (policy path) in
/-- What a decision other than `deny` tells about the policy. -/
structure Grants (context : FileSystemSandboxPolicyContext) (root : List Bytes) : Prop where
  plainCwd : context.cwd.IsPlain
  plainPath : path.IsPlain
  comparable : policy.IsComparable context
  decides : Decides (policy.rules context) path.components root (policy.resolveAccess path context)

/-- Access that is given comes from an entry above the path. -/
theorem exists_grants (hkind : policy.kind = .restricted) (hposix : context.HasPosixCwd)
    (h : policy.resolveAccess path context ≠ .deny) : ∃ root, policy.Grants path context root := by
  have hguard : path.inferPathConvention = some .posix ∧
      path.lexicalDepth.isSome ∧ context.cwd.lexicalDepth.isSome := by
    by_contra hguard
    apply h
    unfold resolveAccess
    simp only [hkind, hposix]
    rw [if_pos]
    simp only [Bool.or_eq_true, decide_eq_true_eq, isNone_iff_eq_none]
    simp only [isSome_iff_ne_none] at hguard
    tauto
  obtain ⟨hpathPosix, hpathDepth, hcwdDepth⟩ := hguard
  obtain ⟨pathDepth, hpathDepth⟩ := isSome_iff_exists.mp hpathDepth
  obtain ⟨cwdDepth, hcwdDepth⟩ := isSome_iff_exists.mp hcwdDepth
  have hpath := (PathUri.isPlain_of_lexicalDepth hpathPosix hpathDepth).1
  have hcwd := (PathUri.isPlain_of_lexicalDepth hposix hcwdDepth).1
  have hcomparable : policy.IsComparable context := by
    intro entry hentry
    by_contra hambiguous
    apply h
    have hnone := withLexicalDepths_eq_none hentry (Bool.eq_true_of_not_eq_false hambiguous)
    unfold resolveAccess
    simp only [hkind, hposix, hnone]
    split <;> rfl
  rcases resolveAccess_spec hkind hcwd hpath hcomparable with ⟨root, hroot⟩ | ⟨hdeny, -⟩
  · exact ⟨root, hcwd, hpath, hcomparable, hroot⟩
  · exact absurd hdeny h

end FileSystemSandboxPolicy

end Rexux.Permissions
