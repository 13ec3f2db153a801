import Mathlib.Data.List.Infix
import Rexux.NetworkProxy.State

/-!
# Managed domain constraints and the enforced policy

A managed allow list should bound what the proxy lets through, and a managed
deny list should be part of what it blocks.

The deny list always is, and so is the allow list when it may not be expanded.
When nothing is said about expansion the check reads patterns in its own way,
and what it accepts is bounded if every glob of the configuration is covered by
one of the managed list, both read as the compiler reads them.  A glob such as
`region*.example.com` is covered by the subdomains of `example.com`.  For
domains without glob characters this is also necessary.
-/

namespace Rexux.NetworkProxy

open Foundation List

/-! ## Globs of domains -/

def isGlobCharacter (c : Char) : Bool := c ∈ "*?[]{}\\,".toList

/-- No character of the domain has a meaning in a glob. -/
def IsPlainDomain (domain : Text) : Prop := ∀ c ∈ domain, isGlobCharacter c = false

instance (domain : Text) : Decidable (IsPlainDomain domain) := List.decidableBAll _ domain

/-- What is known of globs: a plain domain matches itself, and the glob of its
subdomains matches what stands before a dot and the domain, in any case.  Where
the text before a dot is a glob of its own and no label can be missing there,
the hosts are subdomains of what stands behind the dot. -/
structure GlobLaws (env : PatternEnv) : Prop where
  build_domain : ∀ domain, IsPlainDomain domain → env.buildGlob domain = .ok ()
  match_domain : ∀ domain, IsPlainDomain domain → ∀ host,
    env.globMatches domain host = true ↔ toAsciiLowercase host = toAsciiLowercase domain
  build_subdomains : ∀ domain, IsPlainDomain domain → env.buildGlob (subdomainsGlob domain) = .ok ()
  match_subdomains : ∀ domain, IsPlainDomain domain → ∀ host,
    env.globMatches (subdomainsGlob domain) host = true ↔
      ∃ label, label ≠ [] ∧ toAsciiLowercase host = label ++ '.' :: toAsciiLowercase domain
  match_front : ∀ front rest, env.buildGlob front = .ok () → env.globMatches front [] = false →
    ∀ host, env.globMatches (front ++ '.' :: rest) host = true →
      env.globMatches (subdomainsGlob rest) host = true

/-- The part of a pattern that one glob stands for. -/
inductive HostRange where
  | host (domain : Text)
  | subdomains (domain : Text)
  deriving DecidableEq, Repr

namespace HostRange

def glob : HostRange → Text
  | .host domain => domain
  | .subdomains domain => subdomainsGlob domain

def domain : HostRange → Text
  | .host domain => domain
  | .subdomains domain => domain

/-- Every host of the second range is one of the first, as far as the text of
plain domains tells. -/
def coversPlain : HostRange → HostRange → Prop
  | .host parent, .host child => toAsciiLowercase child = toAsciiLowercase parent
  | .host _, .subdomains _ => False
  | .subdomains parent, .host child =>
    ∃ label, label ≠ [] ∧ toAsciiLowercase child = label ++ '.' :: toAsciiLowercase parent
  | .subdomains parent, .subdomains child =>
    toAsciiLowercase child = toAsciiLowercase parent ∨
      ∃ label, toAsciiLowercase child = label ++ '.' :: toAsciiLowercase parent

/-- The second range is a glob for labels, followed by the domain of the
first. -/
def coversFront (env : PatternEnv) : HostRange → HostRange → Prop
  | .host _, _ => False
  | .subdomains parent, child =>
    ∃ front, child.glob = front ++ '.' :: parent ∧ env.buildGlob front = .ok () ∧
      env.globMatches front [] = false

/-- The same range, or one that covers it by its text. -/
def Covers (env : PatternEnv) (parent child : HostRange) : Prop :=
  parent = child ∨
    (IsPlainDomain parent.domain ∧ IsPlainDomain child.domain ∧ coversPlain parent child) ∨
    coversFront env parent child

end HostRange

def DomainPattern.ranges : DomainPattern → List HostRange
  | .exact domain => [.host domain]
  | .subdomainsOnly domain => [.subdomains domain]
  | .apexAndSubdomains domain => [.host domain, .subdomains domain]

/-- The ranges of an entry of a list as the compiler reads it. -/
def compiledRanges (env : PatternEnv) (entry : Text) : List HostRange :=
  (DomainPattern.parse (normalizePattern env entry)).ranges

theorem patternGlobs_eq (env : PatternEnv) (entry : Text) :
    patternGlobs env entry = (compiledRanges env entry).map HostRange.glob := by
  unfold patternGlobs expandDomainPattern compiledRanges
  cases DomainPattern.parse (normalizePattern env entry) <;> rfl

section Laws

variable {env : PatternEnv} (laws : GlobLaws env)

include laws

theorem build_glob {range : HostRange} (h : IsPlainDomain range.domain) :
    env.buildGlob range.glob = .ok () := by
  cases range with
  | host domain => exact laws.build_domain domain h
  | subdomains domain => exact laws.build_subdomains domain h

/-- Covering is sound: hosts of the covered range match the covering one. -/
theorem globMatches_of_covers {parent child : HostRange} (h : parent.Covers env child) {host : Text}
    (hmatch : env.globMatches child.glob host) : env.globMatches parent.glob host := by
  obtain rfl | ⟨hparent, hchild, hcovers⟩ | hcovers := h
  · exact hmatch
  · cases parent with
    | host parent =>
      cases child with
      | host child =>
        have hhost := (laws.match_domain child hchild host).mp hmatch
        exact (laws.match_domain parent hparent host).mpr (hhost.trans hcovers)
      | subdomains child => exact hcovers.elim
    | subdomains parent =>
      cases child with
      | host child =>
        have hhost := (laws.match_domain child hchild host).mp hmatch
        obtain ⟨label, hlabel, heq⟩ := hcovers
        exact (laws.match_subdomains parent hparent host).mpr ⟨label, hlabel, hhost.trans heq⟩
      | subdomains child =>
        obtain ⟨label, hlabel, hhost⟩ := (laws.match_subdomains child hchild host).mp hmatch
        apply (laws.match_subdomains parent hparent host).mpr
        obtain heq | ⟨middle, heq⟩ := hcovers
        · exact ⟨label, hlabel, by rw [hhost, heq]⟩
        · refine ⟨label ++ '.' :: middle, by simp, ?_⟩
          rw [hhost, heq]
          simp
  · cases parent with
    | host parent => exact hcovers.elim
    | subdomains parent =>
      obtain ⟨front, hglob, hbuild, hempty⟩ := hcovers
      rw [hglob] at hmatch
      exact laws.match_front front parent hbuild hempty host hmatch

end Laws

/-! ## A host that only a covering range matches -/

def longSubdomain (n : ℕ) (domain : Text) : Text := List.replicate (n + 1) 'a' ++ '.' :: domain

theorem toAsciiLowercase_longSubdomain (n : ℕ) (domain : Text) :
    toAsciiLowercase (longSubdomain n domain) = longSubdomain n (toAsciiLowercase domain) := by
  simp [longSubdomain, toAsciiLowercase]

theorem eq_or_suffix_of_longSubdomain {n : ℕ} {child parent label : Text}
    (h : longSubdomain n child = label ++ '.' :: parent) :
    child = parent ∨ ∃ middle, child = middle ++ '.' :: parent := by
  obtain ⟨rest, hleft, hright⟩ | ⟨rest, hleft, hright⟩ := append_eq_append_iff.mp h
  · cases rest with
    | nil =>
      left
      simpa using hright
    | cons c rest =>
      right
      rw [cons_append, List.cons.injEq] at hright
      exact ⟨rest, hright.2⟩
  · cases rest with
    | nil =>
      left
      simpa using hright.symm
    | cons c rest =>
      -- The dot would have to stand inside the long label.
      exfalso
      rw [cons_append, List.cons.injEq] at hright
      have hmem : '.' ∈ List.replicate (n + 1) 'a' := by
        rw [hleft, ← hright.1]
        simp
      have hdot := eq_of_mem_replicate hmem
      revert hdot
      decide

variable {env : PatternEnv}

/-- Covering is complete for plain domains: some host of the covered range
betrays every range that does not cover it. -/
theorem exists_host_of_covers (laws : GlobLaws env) {child : HostRange}
    (hchild : IsPlainDomain child.domain) (n : ℕ) :
    ∃ host, env.globMatches child.glob host ∧
      ∀ parent : HostRange, IsPlainDomain parent.domain →
        parent.domain.length ≤ n → env.globMatches parent.glob host → parent.Covers env child := by
  cases child with
  | host child =>
    refine ⟨child, (laws.match_domain child hchild child).mpr rfl, ?_⟩
    intro parent hparent _ hmatch
    refine .inr (.inl ⟨hparent, hchild, ?_⟩)
    cases parent with
    | host parent => exact (laws.match_domain parent hparent child).mp hmatch
    | subdomains parent => exact (laws.match_subdomains parent hparent child).mp hmatch
  | subdomains child =>
    refine ⟨longSubdomain n child, ?_, ?_⟩
    · apply (laws.match_subdomains child hchild _).mpr
      rw [toAsciiLowercase_longSubdomain]
      exact ⟨List.replicate (n + 1) 'a', by simp, rfl⟩
    · intro parent hparent hlong hmatch
      refine .inr (.inl ⟨hparent, hchild, ?_⟩)
      cases parent with
      | host parent =>
        have hhost := (laws.match_domain parent hparent _).mp hmatch
        have hlength := congrArg List.length hhost
        simp only [length_toAsciiLowercase, longSubdomain,
          length_append, length_replicate] at hlength
        simp only [HostRange.domain] at hlong
        omega
      | subdomains parent =>
        obtain ⟨label, _, hhost⟩ := (laws.match_subdomains parent hparent _).mp hmatch
        rw [toAsciiLowercase_longSubdomain] at hhost
        exact eq_or_suffix_of_longSubdomain hhost

/-! ## Sets of ranges -/

variable {set : GlobSet} {globalWildcard : GlobalWildcard} {patterns : List Text}

/-- A compiled list matches the hosts of its ranges. -/
theorem isMatch_iff_range
    (h : compileGlobsetWithPolicy env patterns globalWildcard = .ok set) (host : Text) :
    set.isMatch env host ↔
      ∃ entry ∈ patterns, ∃ range ∈ compiledRanges env entry, env.globMatches range.glob host := by
  rw [GlobSet.isMatch, any_eq_true]
  simp only [(compileGlobsetWithPolicy_spec env h).1, patternGlobs_eq, mem_map]
  constructor
  · rintro ⟨_, ⟨entry, hentry, range, hrange, rfl⟩, hmatch⟩
    exact ⟨entry, hentry, range, hrange, hmatch⟩
  · rintro ⟨entry, hentry, range, hrange, hmatch⟩
    exact ⟨range.glob, ⟨entry, hentry, range, hrange, rfl⟩, hmatch⟩

/-- Unless nothing is configured the managed list compiles, and each range of
the configured entries is covered by one of the managed entries. -/
structure ListCovered (env : PatternEnv) (managed configured : List Text) : Prop where
  compiles : configured ≠ [] → ∀ entry ∈ managed, ∀ range ∈ compiledRanges env entry,
    env.buildGlob range.glob = .ok ()
  covered : ∀ entry ∈ configured, ∀ range ∈ compiledRanges env entry,
    ∃ parentEntry ∈ managed, ∃ parent ∈ compiledRanges env parentEntry,
      parent.Covers env range

/-- Every host the configured list allows is allowed by the managed one. -/
def ListBounded (env : PatternEnv) (managed : List Text) (allowSet : GlobSet) : Prop :=
  ∀ host, allowSet.isMatch env host = true →
    ∃ set, compileAllowlistGlobset env managed = .ok set ∧ set.isMatch env host = true

variable {allowSet : GlobSet} {configured managed : List Text}

/-- A list that is covered matches no host beyond the managed one. -/
theorem ListCovered.bounded (laws : GlobLaws env) (h : ListCovered env managed configured)
    (hset : compileAllowlistGlobset env configured = .ok allowSet) :
    ListBounded env managed allowSet := by
  intro host hmatch
  obtain ⟨entry, hentry, range, hrange, hrangeMatch⟩ := (isMatch_iff_range hset host).mp hmatch
  have hbuilt : ∀ entry ∈ managed, ∀ glob ∈ patternGlobs env entry,
      env.buildGlob glob = .ok () := by
    intro parentEntry hparentEntry glob hglob
    rw [patternGlobs_eq, mem_map] at hglob
    obtain ⟨parent, hparent, rfl⟩ := hglob
    exact h.compiles (ne_nil_of_mem hentry) parentEntry hparentEntry parent hparent
  obtain ⟨set, hcompiled⟩ := compileAllowlistGlobset_succeeds env hbuilt
  refine ⟨set, hcompiled, ?_⟩
  obtain ⟨parentEntry, hparentEntry, parent, hparent, hcovers⟩ :=
    h.covered entry hentry range hrange
  exact (isMatch_iff_range hcompiled host).mpr
    ⟨parentEntry, hparentEntry, parent, hparent, globMatches_of_covers laws hcovers hrangeMatch⟩

def PlainEntries (env : PatternEnv) (entries : List Text) : Prop :=
  ∀ entry ∈ entries, ∀ range ∈ compiledRanges env entry,
    IsPlainDomain range.domain

theorem exists_length_bound (env : PatternEnv) (entries : List Text) :
    ∃ n, ∀ entry ∈ entries, ∀ range ∈ compiledRanges env entry, range.domain.length ≤ n := by
  induction entries with
  | nil => exact ⟨0, by simp⟩
  | cons entry entries ih =>
    obtain ⟨n, hn⟩ := ih
    have hentry : ∃ m, ∀ range ∈ compiledRanges env entry, range.domain.length ≤ m := by
      unfold compiledRanges
      cases DomainPattern.parse (normalizePattern env entry) with
      | exact domain | subdomainsOnly domain | apexAndSubdomains domain =>
        exact ⟨domain.length, by
          simp [DomainPattern.ranges, HostRange.domain]⟩
    obtain ⟨m, hm⟩ := hentry
    refine ⟨max n m, ?_⟩
    intro other hother range hrange
    obtain rfl | hother := mem_cons.mp hother
    · exact (hm range hrange).trans (le_max_right n m)
    · exact (hn other hother range hrange).trans (le_max_left n m)

/-- Among plain domains the converse holds: a long subdomain tells the lists apart. -/
theorem listCovered_of_bounded (laws : GlobLaws env)
    (hmanaged : PlainEntries env managed) (hconfigured : PlainEntries env configured)
    (hset : compileAllowlistGlobset env configured = .ok allowSet)
    (h : ListBounded env managed allowSet) : ListCovered env managed configured where
  compiles _ entry hentry range hrange := build_glob laws (hmanaged entry hentry range hrange)
  covered := by
    intro entry hentry range hrange
    obtain ⟨n, hn⟩ := exists_length_bound env managed
    obtain ⟨host, hhost, hcovers⟩ :=
      exists_host_of_covers laws (hconfigured entry hentry range hrange) n
    obtain ⟨set, hcompiled, hmatch⟩ := h host
      ((isMatch_iff_range hset host).mpr ⟨entry, hentry, range, hrange, hhost⟩)
    obtain ⟨parentEntry, hparentEntry, parent, hparent, hparentMatch⟩ :=
      (isMatch_iff_range hcompiled host).mp hmatch
    exact ⟨parentEntry, hparentEntry, parent, hparent,
      hcovers parent (hmanaged parentEntry hparentEntry parent hparent)
        (hn parentEntry hparentEntry parent hparent) hparentMatch⟩

theorem listCovered_of_lowercase_subset
    (hbuilt : ∀ entry ∈ managed, ∀ range ∈ compiledRanges env entry,
      env.buildGlob range.glob = .ok ())
    (h : ∀ entry ∈ configured, toAsciiLowercase entry ∈ managed.map toAsciiLowercase) :
    ListCovered env managed configured where
  compiles _ := hbuilt
  covered := by
    intro entry hentry range hrange
    obtain ⟨parentEntry, hparentEntry, heq⟩ := mem_map.mp (h entry hentry)
    refine ⟨parentEntry, hparentEntry, range, ?_, Or.inl rfl⟩
    rw [compiledRanges, normalizePattern_eq_of_toAsciiLowercase_eq env heq]
    exact hrange

theorem buildGlob_of_compiled
    (h : compileGlobsetWithPolicy env patterns globalWildcard = .ok set) {entry : Text}
    (hentry : toAsciiLowercase entry ∈ patterns.map toAsciiLowercase) :
    ∀ range ∈ compiledRanges env entry, env.buildGlob range.glob = .ok () := by
  obtain ⟨hmem, hbuilt⟩ := compileGlobsetWithPolicy_spec env h
  obtain ⟨pattern, hpattern, heq⟩ := mem_map.mp hentry
  intro range hrange
  apply hbuilt
  rw [hmem]
  refine ⟨pattern, hpattern, ?_⟩
  rw [patternGlobs_eq, compiledRanges, normalizePattern_eq_of_toAsciiLowercase_eq env heq]
  exact mem_map_of_mem hrange

section Policy

variable {Hook : Type} {env : ProxyEnv Hook}
  {config : NetworkProxyConfig Hook} {constraints : NetworkProxyConstraints}
  {state : ConfigState Hook}

variable (env constraints state) in
/-- The managed lists bound what the state enforces. -/
structure ManagedDomainsBound : Prop where
  allow : ∀ managed, constraints.allowedDomains = some managed →
    constraints.allowlistExpansionEnabled ≠ some true →
      ListBounded env.toPatternEnv managed state.allowSet
  deny : ∀ managed, constraints.deniedDomains = some managed →
    ∀ set, compileDenylistGlobset env.toPatternEnv managed = .ok set →
      ∀ host, set.isMatch env.toPatternEnv host = true →
        state.denySet.isMatch env.toPatternEnv host = true

variable (env config constraints) in
/-- Where nothing is said about expanding the managed allow list, it covers the
configured one as the compiler reads the two. -/
def ConfigurationCovered : Prop :=
  ∀ managed, constraints.allowedDomains = some managed →
    constraints.allowlistExpansionEnabled = none →
      ListCovered env.toPatternEnv managed (config.allowedDomains.getD [])

variable (env config constraints) in
def PlainAllowLists : Prop :=
  PlainEntries env.toPatternEnv (constraints.allowedDomains.getD []) ∧
    PlainEntries env.toPatternEnv (config.allowedDomains.getD [])

variable {managed : List Text}

/-- Every host that the administrator denies is denied. -/
theorem deny_bound (hvalid : validatePolicyAgainstConstraints env config constraints = .ok ())
    (hbuild : buildConfigState env config constraints = .ok state)
    (hmanaged : constraints.deniedDomains = some managed)
    (hset : compileDenylistGlobset env.toPatternEnv managed = .ok set)
    {host : Text} (hmatch : set.isMatch env.toPatternEnv host) :
    state.denySet.isMatch env.toPatternEnv host := by
  obtain ⟨-, hdenied⟩ := validatePolicyAgainstConstraints_spec env hvalid
  obtain ⟨hdeny, -⟩ := buildConfigState_spec env hbuild
  obtain ⟨entry, hentry, range, hrange, hrangeMatch⟩ := (isMatch_iff_range hset host).mp hmatch
  obtain ⟨pattern, hpattern, heq⟩ := mem_map.mp
    (managed_denied_of_valid env hdenied hmanaged entry hentry)
  refine (isMatch_iff_range hdeny host).mpr
    ⟨pattern, mem_deniedDomains_enforcedConfig hpattern, range, ?_, hrangeMatch⟩
  rw [compiledRanges, normalizePattern_eq_of_toAsciiLowercase_eq _ heq]
  exact hrange

theorem allowSet_of_managed (hbuild : buildConfigState env config constraints = .ok state)
    (hmanaged : constraints.allowedDomains = some managed) :
    compileAllowlistGlobset env.toPatternEnv (config.allowedDomains.getD []) =
      .ok state.allowSet := by
  have hdomains :
      (enforcedConfig config constraints).domains = config.domains :=
    enforcedConfig_domains (by rw [hmanaged]; rfl)
  obtain ⟨-, hallow⟩ := buildConfigState_spec env hbuild
  rw [NetworkProxyConfig.allowedDomains, NetworkProxyConfig.domainEntries, hdomains] at hallow
  exact hallow

theorem listCovered_of_no_expansion
    (hvalid : validatePolicyAgainstConstraints env config constraints = .ok ())
    (hbuild : buildConfigState env config constraints = .ok state)
    (hmanaged : constraints.allowedDomains = some managed)
    (hexpansion : constraints.allowlistExpansionEnabled = some false) :
    ListCovered env.toPatternEnv managed (config.allowedDomains.getD []) := by
  obtain ⟨hallowed, -⟩ := validatePolicyAgainstConstraints_spec env hvalid
  obtain ⟨hdeny, -⟩ := buildConfigState_spec env hbuild
  obtain ⟨hconfigured, hmanagedEntries⟩ := managed_allowed_of_valid env hallowed hmanaged hexpansion
  apply listCovered_of_lowercase_subset _ hconfigured
  intro entry hentry
  rcases hmanagedEntries entry hentry with hallow | hdenied
  · exact buildGlob_of_compiled (allowSet_of_managed hbuild hmanaged) hallow
  · apply buildGlob_of_compiled hdeny
    obtain ⟨pattern, hpattern, heq⟩ := mem_map.mp hdenied
    exact mem_map.mpr ⟨pattern, mem_deniedDomains_enforcedConfig hpattern, heq⟩

end Policy

/-! ## Globs of stars and question marks -/

/-- What can be left of a host behind what the character matches. -/
def rests (c : Char) (host : Text) : List Text :=
  if c = '*' then host.tails
  else
    match host with
    | [] => []
    | d :: rest => if c = '?' ∨ d.toLower = c.toLower then [rest] else []

/-- A glob of `*`, `?` and letters, without regard to case. -/
def wildcardMatches : Text → Text → Bool
  | [], host => host.isEmpty
  | c :: glob, host => (rests c host).any (wildcardMatches glob)

def Consumes (c : Char) (piece : Text) : Prop :=
  c = '*' ∨ ∃ d, piece = [d] ∧ (c = '?' ∨ d.toLower = c.toLower)

theorem mem_rests {c : Char} {host rest : Text} :
    rest ∈ rests c host ↔ ∃ piece, host = piece ++ rest ∧ Consumes c piece := by
  unfold rests Consumes
  by_cases hstar : c = '*'
  · simp only [hstar, if_true, mem_tails, true_or, and_true]
    exact exists_congr fun _ => eq_comm
  · cases host with
    | nil => simp [hstar]
    | cons d host =>
      simp only [hstar, if_false, false_or]
      split_ifs with hchar
      · rw [mem_singleton]
        constructor
        · rintro rfl
          exact ⟨[d], rfl, d, rfl, hchar⟩
        · rintro ⟨_, heq, _, rfl, _⟩
          exact (cons.inj heq).2.symm
      · simp only [not_mem_nil, false_iff]
        rintro ⟨_, heq, _, rfl, hother⟩
        rw [(cons.inj heq).1] at hchar
        exact hchar hother

variable {front glob host : Text}

theorem wildcardMatches_cons {c : Char} :
    wildcardMatches (c :: glob) host ↔
      ∃ piece rest, host = piece ++ rest ∧ Consumes c piece ∧ wildcardMatches glob rest := by
  rw [wildcardMatches, any_eq_true]
  constructor
  · rintro ⟨rest, hrest, hmatch⟩
    obtain ⟨piece, heq, hpiece⟩ := mem_rests.mp hrest
    exact ⟨piece, rest, heq, hpiece, hmatch⟩
  · rintro ⟨piece, rest, heq, hpiece, hmatch⟩
    exact ⟨rest, mem_rests.mpr ⟨piece, heq, hpiece⟩, hmatch⟩

theorem exists_split_of_wildcardMatches (h : wildcardMatches (front ++ glob) host) :
    ∃ label rest, host = label ++ rest ∧ wildcardMatches front label ∧
      wildcardMatches glob rest := by
  induction front generalizing host with
  | nil => exact ⟨[], host, rfl, rfl, h⟩
  | cons c front ih =>
    obtain ⟨piece, rest, rfl, hpiece, hmatch⟩ := wildcardMatches_cons.mp h
    obtain ⟨label, rest, rfl, hlabel, hrest⟩ := ih hmatch
    exact ⟨piece ++ label, rest, by simp,
      wildcardMatches_cons.mpr ⟨piece, label, rfl, hpiece, hlabel⟩, hrest⟩

theorem consumes_plain {c : Char} {piece : Text} (hc : isGlobCharacter c = false) :
    Consumes c piece ↔ ∃ d, piece = [d] ∧ d.toLower = c.toLower := by
  have hstar : c ≠ '*' := by
    rintro rfl
    revert hc
    decide
  have hquestion : c ≠ '?' := by
    rintro rfl
    revert hc
    decide
  simp [Consumes, hstar, hquestion]

/-- A glob without special characters matches one host. -/
theorem wildcardMatches_plain {domain : Text} (hplain : IsPlainDomain domain) :
    wildcardMatches domain host ↔ toAsciiLowercase host = toAsciiLowercase domain := by
  induction domain generalizing host with
  | nil => simp [wildcardMatches, toAsciiLowercase]
  | cons c domain ih =>
    rw [IsPlainDomain, forall_mem_cons] at hplain
    simp only [wildcardMatches_cons, consumes_plain hplain.1, ih hplain.2]
    constructor
    · rintro ⟨_, rest, rfl, ⟨d, rfl, hchar⟩, hrest⟩
      exact congrArg₂ cons hchar hrest
    · intro heq
      cases host with
      | nil => cases heq
      | cons d host =>
        obtain ⟨hchar, hrest⟩ := cons.inj heq
        exact ⟨[d], host, rfl, ⟨d, rfl, hchar⟩, hrest⟩

theorem wildcardMatches_subdomainsGlob {rest : Text} :
    wildcardMatches (subdomainsGlob rest) host ↔
      ∃ label behind, host = label ++ behind ∧ label ≠ [] ∧
        wildcardMatches ('.' :: rest) behind := by
  change wildcardMatches ('?' :: '*' :: '.' :: rest) host ↔ _
  constructor
  · intro hmatch
    obtain ⟨_, _, rfl, hfirst, hmatch⟩ := wildcardMatches_cons.mp hmatch
    obtain ⟨piece, behind, rfl, -, hbehind⟩ := wildcardMatches_cons.mp hmatch
    obtain hstar | ⟨d, rfl, -⟩ := hfirst
    · cases hstar
    · exact ⟨d :: piece, behind, by simp, by simp, hbehind⟩
  · rintro ⟨label, behind, rfl, hlabel, hbehind⟩
    obtain ⟨d, label, rfl⟩ := exists_cons_of_ne_nil hlabel
    have hstar : wildcardMatches ('*' :: '.' :: rest) (label ++ behind) :=
      wildcardMatches_cons.mpr ⟨label, behind, rfl, .inl rfl, hbehind⟩
    exact wildcardMatches_cons.mpr
      ⟨[d], label ++ behind, rfl, .inr ⟨d, rfl, .inl rfl⟩, hstar⟩

def wildcardEnv : ProxyEnv Unit where
  isIpAddr _ := false
  urlHostParse host := if ':' ∈ host then none else some (toAsciiLowercase host)
  buildGlob _ := .ok ()
  globMatches := wildcardMatches
  validateMitmHookConfig _ := .ok ()
  compileMitmHooks _ := .ok ()
  newMitmState _ := .ok ()
  parseUnixSocketPath _ := .ok ()
  debugTexts texts := texts.flatten

/-- The laws of globs hold of the plain matcher. -/
theorem wildcardEnv_globLaws : GlobLaws wildcardEnv.toPatternEnv where
  build_domain _ _ := rfl
  match_domain _ hplain _ := wildcardMatches_plain hplain
  build_subdomains _ _ := rfl
  match_subdomains := by
    intro domain hplain host
    have hdot : IsPlainDomain ('.' :: domain) := forall_mem_cons.mpr ⟨by decide, hplain⟩
    rw [show wildcardEnv.globMatches = wildcardMatches from rfl, wildcardMatches_subdomainsGlob]
    simp only [wildcardMatches_plain hdot]
    constructor
    · rintro ⟨label, behind, rfl, hlabel, hbehind⟩
      refine ⟨toAsciiLowercase label, by simpa [toAsciiLowercase] using hlabel, ?_⟩
      rw [toAsciiLowercase, map_append]
      exact congrArg _ hbehind
    · rintro ⟨label, hlabel, hhost⟩
      obtain ⟨front, behind, rfl, rfl, hbehind⟩ := map_eq_append_iff.mp hhost
      exact ⟨front, behind, rfl, by simpa using hlabel, hbehind⟩
  match_front := by
    intro front rest _ hempty host hmatch
    obtain ⟨label, behind, rfl, hlabel, hbehind⟩ := exists_split_of_wildcardMatches hmatch
    refine wildcardMatches_subdomainsGlob.mpr ⟨label, behind, rfl, ?_, hbehind⟩
    rintro rfl
    exact absurd hlabel (Bool.eq_false_iff.mp hempty)

def allowing (domains : List Text) : NetworkProxyConfig Unit where
  domains := some (domains.map fun domain => ⟨domain, .allow⟩)

end Rexux.NetworkProxy
