import Rexux.ExecPolicy.Strictness
import Rexux.NetworkProxy.Policy

/-!
# Network rules

Rules for hosts are kept in the order in which they were added.  They are compiled into
a list of allowed and a list of denied domains, in which the last rule for a host that
does not ask decides where it stands (`lists_compiledNetworkDomains`).
-/

namespace Rexux.ExecPolicy

open Foundation Rexux.NetworkProxy List

def isPort (port : Text) : Bool := port ≠ [] && port.all Char.isDigit

/-- Strip the brackets or the port of a host. -/
def hostWithoutPort (raw host : Text) : Except Error Text :=
  match host with
  | '[' :: stripped =>
    match splitOnce "]".toList stripped with
    | none => .error (.invalidRule "network_rule host has an invalid bracketed IPv6 literal".toList)
    | some (inside, rest) =>
      let portOk :=
        match rest with
        | ':' :: port => isPort port
        | _ => false
      if rest ≠ [] && !portOk then
        .error (.invalidRule ("network_rule host contains an unsupported suffix: ".toList ++ raw))
      else .ok inside
  | _ =>
    -- There is one colon, so the first is the last.
    if host.count ':' = 1 then
      match splitOnce ":".toList host with
      | some (candidate, port) =>
        if candidate ≠ [] && isPort port then .ok candidate else .ok host
      | none => .ok host
    else .ok host

/-- The host of a rule, or why it is none. -/
def normalizeNetworkRuleHost (raw : Text) : Except Error Text :=
  let host := trim raw
  if host = [] then .error (.invalidRule "network_rule host cannot be empty".toList)
  else if (splitOnce "://".toList host).isSome || host.contains '/' || host.contains '?' ||
      host.contains '#' then
    .error (.invalidRule
      "network_rule host must be a hostname or IP literal (without scheme or path)".toList)
  else
    (hostWithoutPort raw host).bind fun host =>
      let normalized := toAsciiLowercase (trim (trimEndDots host))
      if normalized = [] then
        .error (.invalidRule "network_rule host cannot be empty".toList)
      else if normalized.contains '*' then
        .error (.invalidRule
          "network_rule host must be a specific host; wildcards are not allowed".toList)
      else if normalized.any isWhitespace then
        .error (.invalidRule "network_rule host cannot contain whitespace".toList)
      else .ok normalized

namespace Policy

def addNetworkRule (policy : Policy) (host : Text) (protocol : NetworkRuleProtocol)
    (decision : Decision) (justification : Option Text) : Except Error Policy :=
  (normalizeNetworkRuleHost host).bind fun host =>
    if justification.any (fun raw => trim raw = []) then
      .error (.invalidRule "justification cannot be empty".toList)
    else
      .ok { policy with
        networkRules := policy.networkRules ++ [⟨host, protocol, decision, justification⟩] }

/-- The host becomes the last entry of the list. -/
def upsertDomain (entries : List Text) (host : Text) : List Text :=
  entries.filter (· ≠ host) ++ [host]

/-- A rule moves its host to its own list and takes it out of the other. -/
def compileNetworkRule (domains : List Text × List Text) (rule : NetworkRule) :
    List Text × List Text :=
  match rule.decision with
  | .allow => (upsertDomain domains.1 rule.host, domains.2.filter (· ≠ rule.host))
  | .forbidden => (domains.1.filter (· ≠ rule.host), upsertDomain domains.2 rule.host)
  | .prompt => domains

/-- The allowed and the denied domains. -/
def compiledNetworkDomains (policy : Policy) : List Text × List Text :=
  policy.networkRules.foldl compileNetworkRule ([], [])

def listsDomain (policy : Policy) (host : Text) (decision : Decision) : Bool :=
  match decision with
  | .allow => policy.compiledNetworkDomains.1.contains host
  | .forbidden => policy.compiledNetworkDomains.2.contains host
  | .prompt => true

/-- A rule takes a host over unless it asks. -/
def decideHost (host : Text) (decided : Option Decision) (rule : NetworkRule) : Option Decision :=
  if rule.host = host ∧ rule.decision ≠ .prompt then some rule.decision else decided

/-- The decision of the last rule for the host that is not a prompt. -/
def hostDecision (policy : Policy) (host : Text) : Option Decision :=
  policy.networkRules.foldl (decideHost host) none

variable {entries : List Text} {host : Text}

theorem mem_upsertDomain {entry : Text} :
    entry ∈ upsertDomain entries host ↔ entry = host ∨ entry ∈ entries := by
  by_cases heq : entry = host <;> simp [upsertDomain, heq]

/-- The lists say of the host what was decided. -/
structure Lists (host : Text) (domains : List Text × List Text)
    (decided : Option Decision) : Prop where
  allowed : host ∈ domains.1 ↔ decided = some .allow
  denied : host ∈ domains.2 ↔ decided = some .forbidden

variable {decided : Option Decision} {domains : List Text × List Text}

/-- A rule moves its host to the list of its decision; one that prompts moves nothing. -/
theorem Lists.step (h : Lists host domains decided) (rule : NetworkRule) :
    Lists host (compileNetworkRule domains rule) (decideHost host decided rule) := by
  unfold compileNetworkRule decideHost
  cases hdecision : rule.decision with
  | prompt =>
    simp only [ne_eq, not_true_eq_false, and_false]
    exact h
  | allow =>
    by_cases heq : rule.host = host
    · constructor <;> simp [heq, mem_upsertDomain]
    · constructor
      · simp [heq, Ne.symm heq, mem_upsertDomain, h.allowed]
      · simp [heq, Ne.symm heq, h.denied]
  | forbidden =>
    by_cases heq : rule.host = host
    · constructor <;> simp [heq, mem_upsertDomain]
    · constructor
      · simp [heq, Ne.symm heq, h.allowed]
      · simp [heq, Ne.symm heq, mem_upsertDomain, h.denied]

theorem Lists.foldl (h : Lists host domains decided) (rules : List NetworkRule) :
    Lists host (rules.foldl compileNetworkRule domains)
      (rules.foldl (decideHost host) decided) := by
  induction rules generalizing domains decided with
  | nil => exact h
  | cons rule rules ih => exact ih (h.step rule)

variable (policy : Policy)

theorem lists_compiledNetworkDomains (host : Text) :
    Lists host policy.compiledNetworkDomains (policy.hostDecision host) := by
  have hempty : Lists host ([], []) none := by constructor <;> simp
  exact hempty.foldl policy.networkRules

variable {decision : Decision} {policy : Policy}

theorem listsDomain_iff :
    policy.listsDomain host decision ↔
      decision = .prompt ∨ policy.hostDecision host = some decision := by
  have hlists := policy.lists_compiledNetworkDomains host
  cases decision with
  | allow => simp [listsDomain, hlists.allowed]
  | forbidden => simp [listsDomain, hlists.denied]
  | prompt => simp [listsDomain]

/-- A new rule decides its own host and no other. -/
theorem hostDecision_addNetworkRule {policy amended : Policy} {host other : Text}
    {protocol : NetworkRuleProtocol} {justification : Option Text}
    (hnormal : normalizeNetworkRuleHost host = .ok host)
    (h : policy.addNetworkRule host protocol decision justification = .ok amended) :
    amended.hostDecision other = if host = other ∧ decision ≠ .prompt then some decision
      else policy.hostDecision other := by
  unfold addNetworkRule at h
  rw [hnormal] at h
  split at h
  · cases h
  · cases h
    rw [hostDecision, foldl_append]
    rfl

theorem addNetworkRule_eq {amended : Policy} {protocol : NetworkRuleProtocol}
    {justification : Option Text}
    (h : policy.addNetworkRule host protocol decision justification = .ok amended) :
    amended.rulesByProgram = policy.rulesByProgram ∧
      amended.hostExecutablesByName = policy.hostExecutablesByName := by
  unfold addNetworkRule at h
  cases hhost : normalizeNetworkRuleHost host with
  | error error =>
    rw [hhost] at h
    cases h
  | ok host =>
    rw [hhost] at h
    split at h
    · cases h
    · cases h
      exact ⟨rfl, rfl⟩

theorem nodup_upsertDomain (h : entries.Nodup) (host : Text) : (upsertDomain entries host).Nodup :=
  nodup_append.mpr ⟨h.filter _, by simp, by simp⟩

theorem nodup_compileNetworkRule (rule : NetworkRule) (h : domains.1.Nodup ∧ domains.2.Nodup) :
    (compileNetworkRule domains rule).1.Nodup ∧ (compileNetworkRule domains rule).2.Nodup := by
  unfold compileNetworkRule
  cases rule.decision with
  | allow => exact ⟨nodup_upsertDomain h.1 _, h.2.filter _⟩
  | forbidden => exact ⟨h.1.filter _, nodup_upsertDomain h.2 _⟩
  | prompt => exact h

theorem nodup_compiledNetworkDomains :
    policy.compiledNetworkDomains.1.Nodup ∧ policy.compiledNetworkDomains.2.Nodup := by
  unfold compiledNetworkDomains
  induction policy.networkRules using reverseRecOn with
  | nil => exact ⟨nodup_nil, nodup_nil⟩
  | append_singleton rules rule ih =>
    rw [foldl_append]
    exact nodup_compileNetworkRule rule ih

/-- The last rule for a host that does not ask. -/
def lastRule (policy : Policy) (host : Text) : Option NetworkRule :=
  (policy.networkRules.filter fun rule => rule.host = host ∧ rule.decision ≠ .prompt).getLast?

theorem hostDecision_eq_lastRule (host : Text) :
    policy.hostDecision host = (policy.lastRule host).map (·.decision) := by
  unfold hostDecision lastRule
  induction policy.networkRules using reverseRecOn with
  | nil => rfl
  | append_singleton rules rule ih =>
    rw [foldl_append, filter_append, getLast?_append, foldl_cons,
      foldl_nil, decideHost, ih]
    by_cases h : rule.host = host ∧ rule.decision ≠ .prompt <;> simp [h]

/-- The allowed and the denied domains have no entry twice and none in common, and a host is in the
list that the last rule for it says. -/
theorem compiled_domains_follow_last_rule :
    policy.compiledNetworkDomains.1.Nodup ∧ policy.compiledNetworkDomains.2.Nodup ∧
      policy.compiledNetworkDomains.1.Disjoint policy.compiledNetworkDomains.2 ∧
      ∀ host, (host ∈ policy.compiledNetworkDomains.1 ↔
          ∃ rule, policy.lastRule host = some rule ∧ rule.decision = .allow) ∧
        (host ∈ policy.compiledNetworkDomains.2 ↔
          ∃ rule, policy.lastRule host = some rule ∧ rule.decision = .forbidden) := by
  have hlists := policy.lists_compiledNetworkDomains
  have hnodup := policy.nodup_compiledNetworkDomains
  refine ⟨hnodup.1, hnodup.2, fun host hallowed hdenied => ?_, fun host => ?_⟩
  · have hallow := (hlists host).allowed.mp hallowed
    rw [(hlists host).denied.mp hdenied] at hallow
    cases hallow
  · rw [(hlists host).allowed, (hlists host).denied, hostDecision_eq_lastRule,
      Option.map_eq_some_iff, Option.map_eq_some_iff]
    exact ⟨Iff.rfl, Iff.rfl⟩

/-- The two policies have the same domains on both lists. -/
def SameDomains (policy other : Policy) : Prop :=
  ∀ host,
    (host ∈ policy.compiledNetworkDomains.1 ↔ host ∈ other.compiledNetworkDomains.1) ∧
      (host ∈ policy.compiledNetworkDomains.2 ↔ host ∈ other.compiledNetworkDomains.2)

theorem ne_prompt_of_foldl_decideHost {rules : List NetworkRule} (h : decided ≠ some .prompt) :
    rules.foldl (decideHost host) decided ≠ some .prompt := by
  induction rules generalizing decided with
  | nil => exact h
  | cons rule rules ih =>
    apply ih
    unfold decideHost
    split
    next hrule =>
      intro heq
      exact hrule.2 (Option.some.inj heq)
    · exact h

theorem sameDomains_iff {other : Policy} :
    SameDomains policy other ↔ ∀ host, policy.hostDecision host = other.hostDecision host := by
  refine forall_congr' fun host => ?_
  have hlists := policy.lists_compiledNetworkDomains host
  have hlists' := other.lists_compiledNetworkDomains host
  have hprompt : policy.hostDecision host ≠ some .prompt := ne_prompt_of_foldl_decideHost (by simp)
  have hprompt' : other.hostDecision host ≠ some .prompt := ne_prompt_of_foldl_decideHost (by simp)
  rw [hlists.allowed, hlists.denied, hlists'.allowed, hlists'.denied]
  constructor
  · generalize policy.hostDecision host = decided at *
    generalize other.hostDecision host = decided' at *
    rcases decided with - | - | - | - <;> rcases decided' with - | - | - | - <;> simp_all
  · intro heq
    rw [heq]
    exact ⟨Iff.rfl, Iff.rfl⟩

end Policy

end Rexux.ExecPolicy
