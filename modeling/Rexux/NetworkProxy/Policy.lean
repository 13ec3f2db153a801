import Rexux.Foundation.AsciiCase
import Rexux.Foundation.Outcome

/-!
# Host names and domain patterns

Patterns of the allow and the deny list are read twice.  The compiler of the
glob sets normalises a pattern and expands it into globs, and the check against
managed constraints parses it into a `DomainPattern` of its own.  The two
readings treat ports, brackets and trailing dots differently.

What the code takes from outside (parsing IP addresses and URL hosts, building
and matching globs) is an environment.
-/

namespace Rexux.NetworkProxy

open Foundation List

/-- The foreign functions that reading a pattern uses. -/
structure PatternEnv where
  /-- The text parses as an IP address. -/
  isIpAddr : Text → Bool
  /-- The host of a URL, as it is displayed. -/
  urlHostParse : Text → Option Text
  /-- Build a case-insensitive glob, or say why it is none. -/
  buildGlob : Text → Except Text Unit
  /-- A glob that could be built matches a host. -/
  globMatches : Text → Text → Bool

/-! ## Normalisation -/

def splitOnce (delimiter : Text) : Text → Option (Text × Text)
  | [] => (delimiter.isPrefixOf? []).map fun rest => ([], rest)
  | c :: t =>
    match delimiter.isPrefixOf? (c :: t) with
    | some rest => some ([], rest)
    | none => (splitOnce delimiter t).map fun parts => (c :: parts.1, parts.2)

def trimEndDots (t : Text) : Text := t.rdropWhile (· == '.')

variable (env : PatternEnv)

/-- An IP literal before the delimiter, with what follows as its scope. -/
def scopedIpLiteral (delimiter host : Text) : Option Text :=
  match splitOnce delimiter host with
  | none => none
  | some (ip, scope) =>
    if env.isIpAddr ip then some (ip ++ "%".toList ++ scope) else none

def normalizeIpLiteral (host : Text) : Option Text :=
  if env.isIpAddr host then some host
  else (scopedIpLiteral env "%25".toList host).or
    (scopedIpLiteral env "%".toList host)

def normalizeDnsHostOrIpLiteral (host : Text) : Text :=
  let host := trimEndDots (toAsciiLowercase host)
  (normalizeIpLiteral env host).getD host

def bracketedHost : Text → Option Text
  | '[' :: t => if ']' ∈ t then some (t.takeWhile (· != ']')) else none
  | _ => none

/-- The host that is matched: without port, brackets, final dots and capitals. -/
def normalizeHost (host : Text) : Text :=
  let host := trim host
  match bracketedHost host with
  | some inner => normalizeDnsHostOrIpLiteral env inner
  | none =>
    -- Strip a port, but only where there is exactly one colon.
    if host.count ':' = 1 then
      normalizeDnsHostOrIpLiteral env (host.takeWhile (· != ':'))
    else normalizeDnsHostOrIpLiteral env host

/-- A pattern with its host normalized. -/
def normalizePattern (pattern : Text) : Text :=
  let pattern := trim pattern
  if pattern = "*".toList then "*".toList
  else
    match "**.".toList.isPrefixOf? pattern with
    | some domain => "**.".toList ++ normalizeHost env domain
    | none =>
      match "*.".toList.isPrefixOf? pattern with
      | some domain => "*.".toList ++ normalizeHost env domain
      | none => normalizeHost env pattern

/-! ## Domain patterns -/

/-- A domain, its subdomains, or both. -/
inductive DomainPattern where
  | apexAndSubdomains (domain : Text)
  | subdomainsOnly (domain : Text)
  | exact (domain : Text)
  deriving DecidableEq, Repr

namespace DomainPattern

def parseDomain (domain : Text) (build : Text → DomainPattern) : DomainPattern :=
  let domain := trim domain
  if domain.isEmpty then .exact [] else build domain

def parse (input : Text) : DomainPattern :=
  let input := trim input
  if input.isEmpty then .exact []
  else
    match "**.".toList.isPrefixOf? input with
    | some domain => parseDomain domain .apexAndSubdomains
    | none =>
      match "*.".toList.isPrefixOf? input with
      | some domain => parseDomain domain .subdomainsOnly
      | none => .exact input

end DomainPattern

/-- The domain without the brackets of an IPv6 literal. -/
def stripBrackets (domain : Text) : Text :=
  if domain.head? = some '[' ∧ domain.getLast? = some ']' then
    (domain.drop 1).dropLast
  else domain

/-- The domain of a constraint; what does not parse becomes empty. -/
def parseDomainForConstraints (domain : Text) : Text :=
  let domain := trimEndDots (trim domain)
  if domain.isEmpty then []
  else
    let host := stripBrackets domain
    if '*' ∈ host ∨ '?' ∈ host ∨ '%' ∈ host then domain
    else (env.urlHostParse host).getD []

def normalizeDomain (domain : Text) : Text := toAsciiLowercase (trimEndDots domain)

def domainEq (left right : Text) : Bool := normalizeDomain left = normalizeDomain right

def isSubdomainOrEqual (child parent : Text) : Bool :=
  normalizeDomain child = normalizeDomain parent ||
    ('.' :: normalizeDomain parent).isSuffixOf (normalizeDomain child)

def isStrictSubdomain (child parent : Text) : Bool :=
  normalizeDomain child ≠ normalizeDomain parent &&
    ('.' :: normalizeDomain parent).isSuffixOf (normalizeDomain child)

namespace DomainPattern

def parseForConstraints (input : Text) : DomainPattern :=
  let input := trim input
  if input.isEmpty then .exact []
  else
    match "**.".toList.isPrefixOf? input with
    | some domain => .apexAndSubdomains (parseDomainForConstraints env domain)
    | none =>
      match "*.".toList.isPrefixOf? input with
      | some domain => .subdomainsOnly (parseDomainForConstraints env domain)
      | none => .exact (parseDomainForConstraints env input)

/-- Everything that the candidate matches is matched by the pattern, as the check sees it. -/
def allows : DomainPattern → DomainPattern → Bool
  | .exact domain, .exact candidate => domainEq candidate domain
  | .exact _, _ => false
  | .subdomainsOnly domain, .exact candidate => isStrictSubdomain candidate domain
  | .subdomainsOnly domain, .subdomainsOnly candidate => isSubdomainOrEqual candidate domain
  | .subdomainsOnly domain, .apexAndSubdomains candidate => isStrictSubdomain candidate domain
  | .apexAndSubdomains domain, .exact candidate => isSubdomainOrEqual candidate domain
  | .apexAndSubdomains domain, .subdomainsOnly candidate => isSubdomainOrEqual candidate domain
  | .apexAndSubdomains domain, .apexAndSubdomains candidate => isSubdomainOrEqual candidate domain

end DomainPattern

/-! ## Glob sets -/

def subdomainsGlob (domain : Text) : Text := "?*.".toList ++ domain

/-- The globs of a pattern. -/
def expandDomainPattern (pattern : Text) : List Text :=
  match DomainPattern.parse pattern with
  | .exact domain => [domain]
  | .subdomainsOnly domain => [subdomainsGlob domain]
  | .apexAndSubdomains domain => [domain, subdomainsGlob domain]

def isGlobalWildcardDomainPattern (pattern : Text) : Bool :=
  (expandDomainPattern (normalizePattern env pattern)).any (· = "*".toList)

inductive GlobalWildcard where
  | allow
  | reject
  deriving DecidableEq, Repr

/-- The globs that a list of patterns compiles to. -/
abbrev GlobSet := List Text

def GlobSet.isMatch (set : GlobSet) (host : Text) : Bool := set.any (env.globMatches · host)

def addCandidate (seen : GlobSet) (candidate : Text) : Except Text GlobSet :=
  if candidate ∈ seen then .ok seen
  else
    match env.buildGlob candidate with
    | .ok () => .ok (seen ++ [candidate])
    | .error source =>
      .error ("invalid glob pattern: ".toList ++ candidate ++ ": ".toList ++ source)

def unsupportedGlobalWildcardMessage : Text :=
  ("unsupported global wildcard domain pattern \"*\"; use exact hosts or " ++
    "scoped wildcards like *.example.com or **.example.com").toList

/-- Add the globs of a pattern, or refuse it. -/
def addPattern (globalWildcard : GlobalWildcard) (seen : GlobSet)
    (pattern : Text) : Except Text GlobSet :=
  if globalWildcard = .reject ∧ isGlobalWildcardDomainPattern env pattern then
    .error unsupportedGlobalWildcardMessage
  else
    (expandDomainPattern (normalizePattern env pattern)).foldlM (addCandidate env) seen

/-- Compile the patterns in their order. -/
def compileGlobsetWithPolicy (patterns : List Text)
    (globalWildcard : GlobalWildcard) : Except Text GlobSet :=
  patterns.foldlM (addPattern env globalWildcard) []

def compileAllowlistGlobset (patterns : List Text) : Except Text GlobSet :=
  compileGlobsetWithPolicy env patterns .allow

def compileDenylistGlobset (patterns : List Text) : Except Text GlobSet :=
  compileGlobsetWithPolicy env patterns .reject

/-! ## Case does not matter to the compiler -/

theorem normalizeDnsHostOrIpLiteral_toAsciiLowercase (host : Text) :
    normalizeDnsHostOrIpLiteral env (toAsciiLowercase host) =
      normalizeDnsHostOrIpLiteral env host := by
  simp [normalizeDnsHostOrIpLiteral]

theorem bracketedHost_toAsciiLowercase (host : Text) :
    bracketedHost (toAsciiLowercase host) = (bracketedHost host).map toAsciiLowercase := by
  cases host with
  | nil => rfl
  | cons c t =>
    have hcons : toAsciiLowercase (c :: t) = c.toLower :: toAsciiLowercase t := rfl
    have hmem : ']' ∈ toAsciiLowercase t ↔ ']' ∈ t := by
      simp only [← count_pos_iff]
      rw [count_toAsciiLowercase (by decide)]
    rw [hcons]
    by_cases hc : c = '['
    · subst hc
      have hlower : '['.toLower = '[' := by decide
      rw [hlower, bracketedHost, bracketedHost]
      simp only [hmem]
      split_ifs
      · rw [Option.map_some, takeWhile_toAsciiLowercase]
        intro d
        rw [Bool.eq_iff_iff, bne_iff_ne, bne_iff_ne, ne_eq,
          toLower_eq_iff_of_isCaseless (by decide)]
      · rfl
    · have hlower : c.toLower ≠ '[' := by
        rw [ne_eq, toLower_eq_iff_of_isCaseless (by decide)]
        exact hc
      simp [bracketedHost, hc, hlower]

theorem normalizeHost_toAsciiLowercase (host : Text) :
    normalizeHost env (toAsciiLowercase host) = normalizeHost env host := by
  simp only [normalizeHost, trim_toAsciiLowercase, bracketedHost_toAsciiLowercase]
  cases bracketedHost (trim host) with
  | some inner => exact normalizeDnsHostOrIpLiteral_toAsciiLowercase env inner
  | none =>
    have hcolon : ∀ c : Char, (c.toLower != ':') = (c != ':') := by
      intro c
      rw [Bool.eq_iff_iff, bne_iff_ne, bne_iff_ne, ne_eq, toLower_eq_iff_of_isCaseless (by decide)]
    simp only [Option.map_none]
    rw [count_toAsciiLowercase (by decide), takeWhile_toAsciiLowercase hcolon,
      normalizeDnsHostOrIpLiteral_toAsciiLowercase, normalizeDnsHostOrIpLiteral_toAsciiLowercase]

theorem normalizePattern_toAsciiLowercase (pattern : Text) :
    normalizePattern env (toAsciiLowercase pattern) = normalizePattern env pattern := by
  have hstar : toAsciiLowercase (trim pattern) = "*".toList ↔ trim pattern = "*".toList := by
    cases htrim : trim pattern with
    | nil => simp [toAsciiLowercase]
    | cons c t =>
      have hc := toLower_eq_iff_of_isCaseless (show isCaseless '*' by decide) c
      simp [toAsciiLowercase, hc]
  simp only [normalizePattern, trim_toAsciiLowercase, hstar]
  rw [isPrefixOf?_toAsciiLowercase (by decide), isPrefixOf?_toAsciiLowercase (by decide)]
  split_ifs
  · rfl
  · cases "**.".toList.isPrefixOf? (trim pattern) with
    | some domain => simp only [Option.map_some, normalizeHost_toAsciiLowercase]
    | none =>
      cases "*.".toList.isPrefixOf? (trim pattern) with
      | some domain => simp only [Option.map_some, Option.map_none, normalizeHost_toAsciiLowercase]
      | none => simp only [Option.map_none, normalizeHost_toAsciiLowercase]

theorem normalizePattern_eq_of_toAsciiLowercase_eq {first second : Text}
    (h : toAsciiLowercase first = toAsciiLowercase second) :
    normalizePattern env first = normalizePattern env second := by
  rw [← normalizePattern_toAsciiLowercase, h, normalizePattern_toAsciiLowercase]

/-! ## What a compiled set contains -/

def patternGlobs (pattern : Text) : List Text := expandDomainPattern (normalizePattern env pattern)

variable {seen set : GlobSet}

theorem addCandidate_spec {candidate : Text} (h : addCandidate env seen candidate = .ok set)
    (hseen : ∀ glob ∈ seen, env.buildGlob glob = .ok ()) :
    (∀ glob, glob ∈ set ↔ glob ∈ seen ∨ glob = candidate) ∧
      ∀ glob ∈ set, env.buildGlob glob = .ok () := by
  unfold addCandidate at h
  by_cases hmem : candidate ∈ seen
  · rw [if_pos hmem] at h
    cases h
    refine ⟨fun glob => ?_, hseen⟩
    constructor
    · exact Or.inl
    · rintro (hglob | rfl)
      · exact hglob
      · exact hmem
  · rw [if_neg hmem] at h
    cases hbuild : env.buildGlob candidate with
    | error source => simp [hbuild] at h
    | ok =>
      rw [hbuild] at h
      cases h
      refine ⟨fun glob => by simp, ?_⟩
      intro glob hglob
      rw [mem_append, mem_singleton] at hglob
      rcases hglob with hglob | rfl
      · exact hseen glob hglob
      · exact hbuild

variable {candidates : List Text}

theorem addCandidates_spec (h : candidates.foldlM (addCandidate env) seen = .ok set)
    (hseen : ∀ glob ∈ seen, env.buildGlob glob = .ok ()) :
    (∀ glob, glob ∈ set ↔ glob ∈ seen ∨ glob ∈ candidates) ∧
      ∀ glob ∈ set, env.buildGlob glob = .ok () := by
  induction candidates generalizing seen with
  | nil =>
    cases h
    exact ⟨by simp, hseen⟩
  | cons candidate candidates ih =>
    obtain ⟨next, hnext, hrest⟩ := bind_eq_ok_iff.mp h
    obtain ⟨hmem, hbuilt⟩ := addCandidate_spec env hnext hseen
    obtain ⟨hmem', hbuilt'⟩ := ih hrest hbuilt
    refine ⟨fun glob => ?_, hbuilt'⟩
    rw [hmem', hmem, mem_cons, or_assoc]

variable {globalWildcard : GlobalWildcard} {patterns : List Text}

theorem addPatterns_spec (h : patterns.foldlM (addPattern env globalWildcard) seen = .ok set)
    (hseen : ∀ glob ∈ seen, env.buildGlob glob = .ok ()) :
    (∀ glob, glob ∈ set ↔ glob ∈ seen ∨ ∃ pattern ∈ patterns, glob ∈ patternGlobs env pattern) ∧
      ∀ glob ∈ set, env.buildGlob glob = .ok () := by
  induction patterns generalizing seen with
  | nil =>
    cases h
    exact ⟨by simp, hseen⟩
  | cons pattern patterns ih =>
    obtain ⟨next, hnext, hrest⟩ := bind_eq_ok_iff.mp h
    unfold addPattern at hnext
    split_ifs at hnext with hreject
    obtain ⟨hmem, hbuilt⟩ := addCandidates_spec env hnext hseen
    obtain ⟨hmem', hbuilt'⟩ := ih hrest hbuilt
    refine ⟨fun glob => ?_, hbuilt'⟩
    rw [hmem', hmem, or_assoc]
    simp [patternGlobs]

/-- The set has the globs of the patterns, and all of them were built. -/
theorem compileGlobsetWithPolicy_spec
    (h : compileGlobsetWithPolicy env patterns globalWildcard = .ok set) :
    (∀ glob, glob ∈ set ↔ ∃ pattern ∈ patterns, glob ∈ patternGlobs env pattern) ∧
      ∀ glob ∈ set, env.buildGlob glob = .ok () := by
  have hspec := addPatterns_spec env h (by simp)
  simpa using hspec

theorem addCandidates_succeeds
    (h : ∀ glob ∈ candidates, env.buildGlob glob = .ok ()) (seen : GlobSet) :
    ∃ set, candidates.foldlM (addCandidate env) seen = .ok set := by
  induction candidates generalizing seen with
  | nil => exact ⟨seen, rfl⟩
  | cons candidate candidates ih =>
    have hstep : ∃ next, addCandidate env seen candidate = .ok next := by
      unfold addCandidate
      rw [h candidate mem_cons_self]
      split_ifs
      · exact ⟨seen, rfl⟩
      · exact ⟨_, rfl⟩
    obtain ⟨next, hnext⟩ := hstep
    rw [foldlM_cons, hnext]
    exact ih (fun glob hglob => h glob (mem_cons_of_mem candidate hglob))
      next

theorem compileAllowlistGlobset_succeeds
    (h : ∀ pattern ∈ patterns, ∀ glob ∈ patternGlobs env pattern, env.buildGlob glob = .ok ()) :
    ∃ set, compileAllowlistGlobset env patterns = .ok set := by
  unfold compileAllowlistGlobset compileGlobsetWithPolicy
  generalize ([] : GlobSet) = seen
  induction patterns generalizing seen with
  | nil => exact ⟨seen, rfl⟩
  | cons pattern patterns ih =>
    obtain ⟨next, hnext⟩ := addCandidates_succeeds env (h pattern mem_cons_self) seen
    have hstep : addPattern env .allow seen pattern = .ok next := by
      simpa [addPattern, patternGlobs] using hnext
    rw [foldlM_cons, hstep]
    exact ih (fun other hother => h other (mem_cons_of_mem pattern hother)) next

end Rexux.NetworkProxy
