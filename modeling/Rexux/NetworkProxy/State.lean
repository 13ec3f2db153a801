import Mathlib.Data.List.Dedup
import Rexux.NetworkProxy.Policy

/-!
# Configuration, managed constraints and the enforced state

The configuration of the proxy comes from the user, the constraints from a
managed policy.  `validatePolicyAgainstConstraints` compares the two, and
`buildConfigState` compiles the lists of the configuration into the sets that
requests are checked against.

Of the configuration and the state only what these two functions read is kept.
Interception hooks are opaque: the functions that validate and compile them
belong to the environment.
-/

namespace Rexux.NetworkProxy

open Foundation List

/-- The order of the constructors is the precedence of duplicate patterns. -/
inductive NetworkDomainPermission where
  | none
  | allow
  | deny
  deriving DecidableEq, Repr

def NetworkDomainPermission.rank : NetworkDomainPermission → ℕ
  | .none => 0
  | .allow => 1
  | .deny => 2

structure NetworkDomainPermissionEntry where
  pattern : Text
  permission : NetworkDomainPermission
  deriving DecidableEq, Repr

abbrev NetworkDomainPermissions := List NetworkDomainPermissionEntry

inductive NetworkUnixSocketPermission where
  | allow
  | deny
  deriving DecidableEq, Repr

inductive NetworkMode where
  | limited
  | full
  deriving DecidableEq, Repr

/-- The settings of the proxy. -/
structure NetworkProxyConfig (Hook : Type) where
  enabled : Bool := false
  allowUpstreamProxy : Bool := true
  dangerouslyAllowNonLoopbackProxy : Bool := false
  dangerouslyAllowAllUnixSockets : Bool := false
  mode : NetworkMode := .full
  domains : Option NetworkDomainPermissions := none
  unixSockets : Option (List (Text × NetworkUnixSocketPermission)) := none
  allowLocalBinding : Bool := false
  mitm : Bool := false
  credentialBroker : Bool := false
  mitmHooks : List Hook := []

open NetworkProxyConfig

/-- Raise the permission of a pattern that is there, or add it at the end. -/
def recordPermission (effective : NetworkDomainPermissions)
    (entry : NetworkDomainPermissionEntry) : NetworkDomainPermissions :=
  if effective.any (·.pattern = entry.pattern) then
    effective.map fun existing =>
      if existing.pattern = entry.pattern ∧
          existing.permission.rank < entry.permission.rank then entry
      else existing
  else effective ++ [entry]

/-- For each pattern its strongest permission. -/
def effectiveEntries (entries : NetworkDomainPermissions) : NetworkDomainPermissions :=
  entries.foldl recordPermission []

namespace NetworkProxyConfig

variable {Hook : Type}

variable (config : NetworkProxyConfig Hook)

def domainEntries (permission : NetworkDomainPermission) : Option (List Text) :=
  (config.domains.map fun domains =>
    ((effectiveEntries domains).filter (·.permission = permission)).map
      (·.pattern)).filter (!·.isEmpty)

def allowedDomains : Option (List Text) :=
  config.domainEntries .allow

def deniedDomains : Option (List Text) :=
  config.domainEntries .deny

def allowUnixSockets : List Text :=
  ((config.unixSockets.getD []).filter (·.2 = .allow)).map Prod.fst

/-- The entry is added unless the very same one is there. -/
def pushDomainEntry (permission : NetworkDomainPermission)
    (domains : NetworkDomainPermissions) (pattern : Text) : NetworkDomainPermissions :=
  if ⟨pattern, permission⟩ ∈ domains then domains
  else domains ++ [⟨pattern, permission⟩]

/-- Replace the entries of a permission. -/
def setDomainEntries (entries : List Text) (permission : NetworkDomainPermission) :
    NetworkProxyConfig Hook :=
  let retained := (config.domains.getD []).filter (·.permission ≠ permission)
  let domains := entries.foldl (pushDomainEntry permission) retained
  { config with domains := if domains.isEmpty then none else some domains }

def setAllowedDomains (allowedDomains : List Text) : NetworkProxyConfig Hook :=
  config.setDomainEntries allowedDomains .allow

end NetworkProxyConfig

/-! ## Managed constraints -/

/-- What an administrator demands; a field that is absent demands nothing. -/
structure NetworkProxyConstraints where
  enabled : Option Bool := none
  mode : Option NetworkMode := none
  allowUpstreamProxy : Option Bool := none
  dangerouslyAllowNonLoopbackProxy : Option Bool := none
  dangerouslyAllowAllUnixSockets : Option Bool := none
  allowedDomains : Option (List Text) := none
  allowlistExpansionEnabled : Option Bool := none
  deniedDomains : Option (List Text) := none
  denylistExpansionEnabled : Option Bool := none
  allowUnixSockets : Option (List Text) := none
  allowLocalBinding : Option Bool := none
  deriving DecidableEq, Repr

structure NetworkProxyConstraintError where
  fieldName : Text
  candidate : Text
  allowed : Text
  deriving DecidableEq, Repr

/-- The foreign functions of validating and building a state. -/
structure ProxyEnv (Hook : Type) extends PatternEnv where
  validateMitmHookConfig : NetworkProxyConfig Hook → Except Text Unit
  compileMitmHooks : NetworkProxyConfig Hook → Except Text Unit
  /-- Set up interception, with upstream proxies allowed or not. -/
  newMitmState : Bool → Except Text Unit
  parseUnixSocketPath : Text → Except Text Unit
  /-- A list of texts as it is shown in an error. -/
  debugTexts : List Text → Text

variable {Hook : Type} (env : ProxyEnv Hook)

def validateNonGlobalWildcardDomainPatterns (fieldName : Text)
    (patterns : List Text) : Except NetworkProxyConstraintError Unit :=
  match patterns.find? (isGlobalWildcardDomainPattern env.toPatternEnv) with
  | some pattern =>
    .error ⟨fieldName, trim pattern,
      ("exact hosts or scoped wildcards like *.example.com or " ++ "**.example.com").toList⟩
  | none => .ok ()

def validateSwitch (fieldName : Text) (candidate permitted : Bool) :
    Except NetworkProxyConstraintError Unit :=
  if candidate && !permitted then
    .error ⟨fieldName, "true".toList, "false (disabled by managed config)".toList⟩
  else .ok ()

def networkModeRank : NetworkMode → ℕ
  | .limited => 0
  | .full => 1

def networkModeText : NetworkMode → Text
  | .limited => "Limited".toList
  | .full => "Full".toList

def validateMode (candidate : NetworkMode) (maxMode : Option NetworkMode) :
    Except NetworkProxyConstraintError Unit :=
  match maxMode with
  | none => .ok ()
  | some maxMode =>
    if networkModeRank candidate > networkModeRank maxMode then
      .error ⟨"network.mode".toList, networkModeText candidate,
        networkModeText maxMode ++ " or more restrictive".toList⟩
    else .ok ()

def lowercaseSet (texts : List Text) : List Text := (texts.map toAsciiLowercase).dedup

def sameElements (first second : List Text) : Bool :=
  first.all second.contains && second.all first.contains

/-- Allowed domains stay within the managed ones. -/
def validateAllowedDomains (candidate deniedOverrides : List Text)
    (managed : List Text) (expansionEnabled : Option Bool) :
    Except NetworkProxyConstraintError Unit :=
  let requiredSet := lowercaseSet managed
  let candidateSet := lowercaseSet candidate
  match expansionEnabled with
  | some true =>
    let missing := requiredSet.filter fun entry =>
      !candidateSet.contains entry && !deniedOverrides.contains entry
    if missing.isEmpty then .ok ()
    else
      .error ⟨"network.allowed_domains".toList,
        "missing managed allowed_domains entries".toList,
        env.debugTexts missing⟩
  | some false =>
    let expectedSet := requiredSet.filter (!deniedOverrides.contains ·)
    if sameElements candidateSet expectedSet then .ok ()
    else
      .error ⟨"network.allowed_domains".toList, env.debugTexts candidate,
        "must match managed allowed_domains".toList⟩
  | none =>
    let managedPatterns := managed.map (DomainPattern.parseForConstraints env.toPatternEnv)
    let invalid := candidate.filter fun entry =>
      !managedPatterns.any (·.allows (DomainPattern.parseForConstraints env.toPatternEnv entry))
    if invalid.isEmpty then .ok ()
    else
      .error ⟨"network.allowed_domains".toList, env.debugTexts invalid,
        "subset of managed allowed_domains".toList⟩

/-- Denied domains contain the managed ones. -/
def validateDeniedDomains (candidate managed : List Text) (expansionEnabled : Option Bool) :
    Except NetworkProxyConstraintError Unit :=
  let requiredSet := lowercaseSet managed
  let candidateSet := lowercaseSet candidate
  match expansionEnabled with
  | some false =>
    if sameElements candidateSet requiredSet then .ok ()
    else
      .error ⟨"network.denied_domains".toList, env.debugTexts candidate,
        "must match managed denied_domains".toList⟩
  | _ =>
    let missing := requiredSet.filter (!candidateSet.contains ·)
    if missing.isEmpty then .ok ()
    else
      .error ⟨"network.denied_domains".toList,
        "missing managed denied_domains entries".toList,
        env.debugTexts missing⟩

def validateUnixSockets (candidate : List Text) (managed : Option (List Text)) :
    Except NetworkProxyConstraintError Unit :=
  match managed with
  | none => .ok ()
  | some managed =>
    let invalid := candidate.filter fun entry =>
      !(lowercaseSet managed).contains (toAsciiLowercase entry)
    if invalid.isEmpty then .ok ()
    else
      .error ⟨"network.allow_unix_sockets".toList, env.debugTexts invalid,
        "subset of managed allow_unix_sockets".toList⟩

variable (config : NetworkProxyConfig Hook) (constraints : NetworkProxyConstraints)

def validateManagedAllowedDomains : Except NetworkProxyConstraintError Unit :=
  match constraints.allowedDomains with
  | none => .ok ()
  | some managed => do
      validateNonGlobalWildcardDomainPatterns env "network.allowed_domains".toList managed
      validateAllowedDomains env (config.allowedDomains.getD [])
        (lowercaseSet (config.deniedDomains.getD [])) managed
        constraints.allowlistExpansionEnabled

def validateManagedDeniedDomains : Except NetworkProxyConstraintError Unit :=
  match constraints.deniedDomains with
  | none => .ok ()
  | some managed => do
      validateNonGlobalWildcardDomainPatterns env "network.denied_domains".toList managed
      validateDeniedDomains env (config.deniedDomains.getD []) managed
        constraints.denylistExpansionEnabled

def invalidMitmHookConfiguration (error : Text) : NetworkProxyConstraintError :=
  ⟨"network.mitm_hooks".toList, error, "valid MITM hook configuration".toList⟩

/-- All checks in their order; the first that fails is reported. -/
def validatePolicyAgainstConstraints : Except NetworkProxyConstraintError Unit := do
  (env.validateMitmHookConfig config).mapError invalidMitmHookConfiguration
  validateNonGlobalWildcardDomainPatterns env "network.denied_domains".toList
    (config.deniedDomains.getD [])
  validateSwitch "network.enabled".toList config.enabled (constraints.enabled.getD true)
  validateMode config.mode constraints.mode
  validateSwitch "network.allow_upstream_proxy".toList config.allowUpstreamProxy
    (constraints.allowUpstreamProxy.getD true)
  validateSwitch "network.dangerously_allow_non_loopback_proxy".toList
    config.dangerouslyAllowNonLoopbackProxy
    (constraints.dangerouslyAllowNonLoopbackProxy.getD true)
  validateSwitch "network.dangerously_allow_all_unix_sockets".toList
    config.dangerouslyAllowAllUnixSockets
    (constraints.dangerouslyAllowAllUnixSockets.getD constraints.allowUnixSockets.isNone)
  validateSwitch "network.allow_local_binding".toList config.allowLocalBinding
    (constraints.allowLocalBinding.getD true)
  validateManagedAllowedDomains env config constraints
  validateManagedDeniedDomains env config constraints
  validateUnixSockets env config.allowUnixSockets constraints.allowUnixSockets

/-! ## The enforced state -/

structure ConfigState (Hook : Type) where
  config : NetworkProxyConfig Hook
  brokerageCreatedDefaultAllowlist : Bool
  allowSet : GlobSet
  denySet : GlobSet
  constraints : NetworkProxyConstraints

def constraintErrorText (error : NetworkProxyConstraintError) : Text :=
  "invalid value for ".toList ++ error.fieldName ++ ": ".toList ++
    error.candidate ++ " (allowed ".toList ++ error.allowed ++ ")".toList

def validateUnixSocketAllowlistPaths : Except Text Unit :=
  config.allowUnixSockets.zipIdx.forM fun (socketPath, index) =>
    (env.parseUnixSocketPath socketPath).mapError fun source =>
      "invalid network.allow_unix_sockets[".toList ++ (toString index).toList ++
        "]: ".toList ++ source

/-- The credential broker is off where the managed configuration forbids the
proxy. -/
def withBrokerConstraint : NetworkProxyConfig Hook :=
  if constraints.enabled = some false then
    { config with credentialBroker := false }
  else config

/-- The credential broker turns the proxy on, with everything allowed unless
somebody has said otherwise. -/
def brokerageDefaults : NetworkProxyConfig Hook × Bool :=
  let createdProxy := config.credentialBroker && !config.enabled
  let createdDefaultAllowlist := createdProxy &&
    config.allowedDomains.isNone && constraints.allowedDomains.isNone
  let config := if createdProxy then { config with enabled := true } else config
  let config :=
    if createdDefaultAllowlist then config.setAllowedDomains ["*".toList]
    else config
  (config, createdDefaultAllowlist)

def ensureBrokerHasMitm : Except Text Unit :=
  if config.credentialBroker && !config.mitm then
    .error "network.credential_broker requires network.mitm = true".toList
  else .ok ()

def startMitm : Except Text Unit :=
  if config.mitm then env.newMitmState config.allowUpstreamProxy else .ok ()

/-- Check the settings and compile their domains. -/
def buildConfigState : Except Text (ConfigState Hook) := do
  let (config, createdDefaultAllowlist) :=
    brokerageDefaults (withBrokerConstraint config constraints) constraints
  validateUnixSocketAllowlistPaths env config
  ensureBrokerHasMitm config
  (validateNonGlobalWildcardDomainPatterns env "network.denied_domains".toList
    (config.deniedDomains.getD [])).mapError constraintErrorText
  let denySet ← compileDenylistGlobset env.toPatternEnv (config.deniedDomains.getD [])
  let allowSet ← compileAllowlistGlobset env.toPatternEnv (config.allowedDomains.getD [])
  env.compileMitmHooks config
  startMitm env config
  return ⟨config, createdDefaultAllowlist, allowSet, denySet, constraints⟩

/-- Recording keeps what was recorded, at its permission or a higher one, and
records nothing but the entries. -/
theorem recordPermission_spec (effective : NetworkDomainPermissions)
    (entry : NetworkDomainPermissionEntry) :
    (∀ e ∈ recordPermission effective entry, e ∈ effective ∨ e = entry) ∧
      ∀ e, e ∈ effective ∨ e = entry →
        ∃ e' ∈ recordPermission effective entry,
          e'.pattern = e.pattern ∧ e.permission.rank ≤ e'.permission.rank := by
  unfold recordPermission
  split_ifs with hany
  · obtain ⟨existing, hexisting, hpattern⟩ := any_eq_true.mp hany
    have hpattern : existing.pattern = entry.pattern := by
      simpa using hpattern
    -- What becomes of an entry that is there.
    have hkept : ∀ e ∈ effective, ∃ e' ∈ effective.map (fun existing =>
        if existing.pattern = entry.pattern ∧
          existing.permission.rank < entry.permission.rank then entry
        else existing), e'.pattern = e.pattern ∧
          e.permission.rank ≤ e'.permission.rank ∧
          (e.pattern = entry.pattern → entry.permission.rank ≤ e'.permission.rank) := by
      intro e he
      refine ⟨_, mem_map_of_mem he, ?_⟩
      split_ifs with hraise
      · exact ⟨hraise.1.symm, hraise.2.le, fun _ => le_rfl⟩
      · refine ⟨rfl, le_rfl, fun heq => ?_⟩
        exact not_lt.mp fun hlt => hraise ⟨heq, hlt⟩
    constructor
    · intro e he
      obtain ⟨old, hold, rfl⟩ := mem_map.mp he
      split_ifs
      · exact Or.inr rfl
      · exact Or.inl hold
    · rintro e (he | rfl)
      · obtain ⟨e', he', hsame, hrank, -⟩ := hkept e he
        exact ⟨e', he', hsame, hrank⟩
      · obtain ⟨e', he', hsame, -, hentry⟩ := hkept existing hexisting
        exact ⟨e', he', hsame.trans hpattern, hentry hpattern⟩
  · constructor
    · simp
    · intro e he
      exact ⟨e, by simpa using he, rfl, le_rfl⟩

/-- Each pattern has one effective entry, the strongest that was given. -/
theorem effectiveEntries_spec (entries : NetworkDomainPermissions) :
    (∀ e ∈ effectiveEntries entries, e ∈ entries) ∧
      ∀ e ∈ entries, ∃ e' ∈ effectiveEntries entries,
        e'.pattern = e.pattern ∧ e.permission.rank ≤ e'.permission.rank := by
  induction entries using List.reverseRecOn with
  | nil => simp [effectiveEntries]
  | append_singleton entries entry ih =>
    have hfold : effectiveEntries (entries ++ [entry]) =
        recordPermission (effectiveEntries entries) entry := by
      simp [effectiveEntries]
    obtain ⟨hfrom, hkept⟩ := recordPermission_spec (effectiveEntries entries) entry
    rw [hfold]
    constructor
    · intro e he
      rcases hfrom e he with hold | rfl
      · exact mem_append_left _ (ih.1 e hold)
      · simp
    · intro e he
      rw [mem_append, mem_singleton] at he
      rcases he with hold | rfl
      · obtain ⟨e', he', hpattern, hrank⟩ := ih.2 e hold
        obtain ⟨e'', he'', hpattern', hrank'⟩ := hkept e' (Or.inl he')
        exact ⟨e'', he'', hpattern'.trans hpattern, hrank.trans hrank'⟩
      · exact hkept e (Or.inr rfl)

theorem mem_deniedDomains_iff (pattern : Text) :
    pattern ∈ config.deniedDomains.getD [] ↔ ⟨pattern, .deny⟩ ∈ config.domains.getD [] := by
  have hfilter : ∀ o : Option (List Text), (o.filter (!·.isEmpty)).getD [] = o.getD [] := by
    rintro (_ | _ | _) <;> rfl
  rw [deniedDomains, domainEntries, hfilter]
  cases config.domains with
  | none => simp
  | some domains =>
    obtain ⟨hfrom, hkept⟩ := effectiveEntries_spec domains
    simp only [Option.map_some, Option.getD_some, mem_map, mem_filter, decide_eq_true_eq]
    constructor
    · rintro ⟨e, ⟨he, hdeny⟩, rfl⟩
      rw [← hdeny]
      exact hfrom e he
    · intro he
      obtain ⟨e', he', hpattern, hrank⟩ := hkept _ he
      refine ⟨e', ⟨he', ?_⟩, hpattern⟩
      revert hrank
      cases e'.permission <;> simp [NetworkDomainPermission.rank]

theorem mem_foldl_pushDomainEntry {permission : NetworkDomainPermission} {entries : List Text}
    {domains : NetworkDomainPermissions} {e : NetworkDomainPermissionEntry} (h : e ∈ domains) :
    e ∈ entries.foldl (pushDomainEntry permission) domains := by
  refine foldlRecOn entries _ h fun domains h pattern _ => ?_
  unfold pushDomainEntry
  split_ifs
  · exact h
  · exact mem_append_left _ h

variable {config : NetworkProxyConfig Hook}

theorem mem_deniedDomains_setAllowedDomains {pattern : Text}
    (h : pattern ∈ config.deniedDomains.getD []) (allowed : List Text) :
    pattern ∈ (config.setAllowedDomains allowed).deniedDomains.getD [] := by
  rw [mem_deniedDomains_iff] at h ⊢
  have hmem : ⟨pattern, .deny⟩ ∈ allowed.foldl (pushDomainEntry .allow)
        ((config.domains.getD []).filter (·.permission ≠ .allow)) := by
    apply mem_foldl_pushDomainEntry
    rw [mem_filter]
    exact ⟨h, rfl⟩
  simp only [setAllowedDomains, setDomainEntries]
  split_ifs with hempty
  · rw [List.isEmpty_iff] at hempty
    rw [hempty] at hmem
    cases hmem
  · exact hmem

/-! ## What a built state enforces -/

/-- The settings that are checked and compiled. -/
def enforcedConfig (config : NetworkProxyConfig Hook)
    (constraints : NetworkProxyConstraints) : NetworkProxyConfig Hook :=
  (brokerageDefaults (withBrokerConstraint config constraints) constraints).1

variable {constraints : NetworkProxyConstraints}

/-- The sets of a state are compiled from the settings that were enforced. -/
theorem buildConfigState_spec
    {state : ConfigState Hook} (h : buildConfigState env config constraints = .ok state) :
    compileDenylistGlobset env.toPatternEnv
        ((enforcedConfig config constraints).deniedDomains.getD []) = .ok state.denySet ∧
      compileAllowlistGlobset env.toPatternEnv
        ((enforcedConfig config constraints).allowedDomains.getD []) = .ok state.allowSet := by
  iterate 3 obtain ⟨-, -, h⟩ := bind_eq_ok_iff.mp h
  obtain ⟨denySet, hdeny, h⟩ := bind_eq_ok_iff.mp h
  obtain ⟨allowSet, hallow, h⟩ := bind_eq_ok_iff.mp h
  obtain ⟨-, -, h⟩ := bind_eq_ok_iff.mp h
  obtain ⟨-, -, h⟩ := bind_eq_ok_iff.mp h
  cases h
  exact ⟨hdeny, hallow⟩

theorem enforcedConfig_domains (h : constraints.allowedDomains.isSome) :
    (enforcedConfig config constraints).domains = config.domains := by
  have hnone : constraints.allowedDomains.isNone = false := by
    rw [← Option.not_isSome, h]
    rfl
  simp only [enforcedConfig, brokerageDefaults, hnone, Bool.and_false, Bool.false_eq_true, if_false]
  unfold withBrokerConstraint
  split_ifs <;> rfl

theorem mem_deniedDomains_enforcedConfig
    {pattern : Text} (h : pattern ∈ config.deniedDomains.getD []) :
    pattern ∈ (enforcedConfig config constraints).deniedDomains.getD [] := by
  have hbroker : pattern ∈ (withBrokerConstraint config constraints).deniedDomains.getD [] := by
    unfold withBrokerConstraint
    split_ifs <;> exact h
  simp only [enforcedConfig, brokerageDefaults]
  split_ifs
  any_goals exact mem_deniedDomains_setAllowedDomains hbroker _
  all_goals exact hbroker

/-! ## What validation has established -/

/-- Settings that pass have passed the checks of both lists. -/
theorem validatePolicyAgainstConstraints_spec
    (h : validatePolicyAgainstConstraints env config constraints = .ok ()) :
    validateManagedAllowedDomains env config constraints = .ok () ∧
      validateManagedDeniedDomains env config constraints = .ok () := by
  iterate 8 obtain ⟨-, -, h⟩ := bind_eq_ok_iff.mp h
  obtain ⟨_, hallowed, h⟩ := bind_eq_ok_iff.mp h
  obtain ⟨_, hdenied, -⟩ := bind_eq_ok_iff.mp h
  exact ⟨hallowed, hdenied⟩

theorem mem_lowercaseSet {texts : List Text} {t : Text} :
    t ∈ lowercaseSet texts ↔ t ∈ texts.map toAsciiLowercase :=
  mem_dedup

theorem managed_denied_of_valid {managed : List Text}
    (h : validateManagedDeniedDomains env config constraints = .ok ())
    (hmanaged : constraints.deniedDomains = some managed) :
    ∀ entry ∈ managed, toAsciiLowercase entry ∈
      (config.deniedDomains.getD []).map toAsciiLowercase := by
  simp only [validateManagedDeniedDomains, hmanaged] at h
  obtain ⟨-, -, h⟩ := bind_eq_ok_iff.mp h
  intro entry hentry
  have hrequired : toAsciiLowercase entry ∈ lowercaseSet managed :=
    mem_lowercaseSet.mpr (mem_map_of_mem hentry)
  rw [← mem_lowercaseSet]
  simp only [validateDeniedDomains] at h
  split at h
  · split_ifs at h with hsame
    rw [sameElements, Bool.and_eq_true, all_eq_true, all_eq_true] at hsame
    simpa using hsame.2 _ hrequired
  · split_ifs at h with hmissing
    rw [List.isEmpty_iff, filter_eq_nil_iff] at hmissing
    simpa using hmissing _ hrequired

/-- Without expansion the configuration allows managed entries only, and what
it does not allow of them it denies. -/
theorem managed_allowed_of_valid {managed : List Text}
    (h : validateManagedAllowedDomains env config constraints = .ok ())
    (hmanaged : constraints.allowedDomains = some managed)
    (hexpansion : constraints.allowlistExpansionEnabled = some false) :
    (∀ entry ∈ config.allowedDomains.getD [],
        toAsciiLowercase entry ∈ managed.map toAsciiLowercase) ∧
      ∀ entry ∈ managed, toAsciiLowercase entry ∈
            (config.allowedDomains.getD []).map toAsciiLowercase ∨
          toAsciiLowercase entry ∈ (config.deniedDomains.getD []).map toAsciiLowercase := by
  simp only [validateManagedAllowedDomains, hmanaged] at h
  obtain ⟨-, -, h⟩ := bind_eq_ok_iff.mp h
  simp only [validateAllowedDomains, hexpansion] at h
  split_ifs at h with hsame
  rw [sameElements, Bool.and_eq_true, all_eq_true, all_eq_true] at hsame
  obtain ⟨hcandidate, hexpected⟩ := hsame
  constructor
  · intro entry hentry
    have hmem := hcandidate _ (mem_lowercaseSet.mpr (mem_map_of_mem hentry))
    rw [contains_iff_mem, mem_filter] at hmem
    exact mem_lowercaseSet.mp hmem.1
  · intro entry hentry
    have hrequired : toAsciiLowercase entry ∈ lowercaseSet managed :=
      mem_lowercaseSet.mpr (mem_map_of_mem hentry)
    by_cases hdenied : toAsciiLowercase entry ∈ lowercaseSet (config.deniedDomains.getD [])
    · exact Or.inr (mem_lowercaseSet.mp hdenied)
    · left
      have hmem := hexpected (toAsciiLowercase entry)
        (mem_filter.mpr ⟨hrequired, by simpa using hdenied⟩)
      exact mem_lowercaseSet.mp (by simpa using hmem)

end Rexux.NetworkProxy
