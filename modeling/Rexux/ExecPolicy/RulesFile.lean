import Rexux.Foundation.Runs
import Rexux.ExecPolicy.Approval
import Rexux.ExecPolicy.RuleCalls

/-!
# The file of rules and the running policy

An accepted rule is appended to the file of rules and then added to the policy in
memory.  Each side leaves it out for a reason of its own: the file if it has such a line,
the policy if it allows the command already.

Where the two sides disagree about leaving a rule out they can come apart, and
`stays_in_step_iff` says exactly when: a prefix rule keeps them together unless only one
side takes it and no exact rule covers it, and a network rule unless its line is an old
one and its host has changed sides since.
-/

namespace Rexux.ExecPolicy

open Foundation List Policy RuleCall

/-- Where an append is stopped by the file system; a write leaves some characters. -/
inductive IoFault
  | createPolicyDir
  | openPolicyFile
  | lockPolicyFile
  | seekPolicyFile
  | readPolicyFile
  | writeNewline
  | writeLine (written : ℕ)
  deriving DecidableEq, Repr

/-- Paths and sources of errors of the file system are left out. -/
inductive AmendError
  | emptyPrefix
  | invalidNetworkRule (error : Error)
  | createPolicyDir
  | openPolicyFile
  | writePolicyFile
  | lockPolicyFile
  | seekPolicyFile
  | readPolicyFile
  deriving DecidableEq, Repr

variable (fault : Option IoFault) (contents : Text)

/-- The file already has the line, so it is not written again. -/
def hasLine (line : Text) : Bool := (textLines contents).contains line

/-- Append a line; a fault may leave part of it. -/
def writeRuleLine (line : Text) : Except AmendError Unit × Text :=
  match fault with
  | some .writeNewline =>
    if missingLineFeed contents = [] then (.ok (), appendLine contents line)
    else (.error .writePolicyFile, contents)
  | some (.writeLine written) =>
    (.error .writePolicyFile, contents ++ missingLineFeed contents ++ (line ++ ['\n']).take written)
  | _ => (.ok (), appendLine contents line)

/-- `append_rule_line` and `append_locked_line`. -/
def appendRuleLine (line : Text) : Except AmendError Unit × Text :=
  match fault with
  | some .createPolicyDir => (.error .createPolicyDir, contents)
  | some .openPolicyFile => (.error .openPolicyFile, contents)
  | some .lockPolicyFile => (.error .lockPolicyFile, contents)
  | some .seekPolicyFile => (.error .seekPolicyFile, contents)
  | some .readPolicyFile => (.error .readPolicyFile, contents)
  | fault =>
    if hasLine contents line then (.ok (), contents) else writeRuleLine fault contents line

/-- Append a rule that allows a prefix. -/
def blockingAppendAllowPrefixRule (tokens : List Text) : Except AmendError Unit × Text :=
  if tokens = [] then (.error .emptyPrefix, contents)
  else appendRuleLine fault contents (RuleCall.prefixRule tokens "allow".toList).render

/-- Append a rule for a host, which is normalised first. -/
def blockingAppendNetworkRule (host : Text) (protocol : NetworkRuleProtocol) (decision : Decision)
    (justification : Option Text) : Except AmendError Unit × Text :=
  match normalizeNetworkRuleHost host with
  | .error error => (.error (.invalidNetworkRule error), contents)
  | .ok host =>
    if justification.any (fun raw => trim raw = []) then
      (.error (.invalidNetworkRule (.invalidRule "justification cannot be empty".toList)), contents)
    else
      appendRuleLine fault contents (networkRule host protocol.asPolicyString
        (networkDecisionString decision) justification).render

/-! ## The manager -/

inductive ExecPolicyUpdateError
  | appendRule (source : AmendError)
  | addRule (source : Error)
  deriving DecidableEq, Repr

/-- The rules file and the policy in memory. -/
structure ExecPolicyManager where
  file : Text
  policy : Policy
  deriving DecidableEq, Repr

open ExecPolicyManager

inductive PolicyUpdate
  | amendment (tokens : List Text)
  | networkRule (host : Text) (protocol : NetworkRuleProtocol) (decision : Decision)
      (justification : Option Text)
  deriving DecidableEq, Repr

/-- An update, with what the operating system does to it. -/
structure UpdateCall where
  update : PolicyUpdate
  environment : Environment
  fault : Option IoFault

/-- A policy rule allows the command, and no rule is stricter. -/
def Policy.alreadyAllowed (policy : Policy) (environment : Environment)
    (tokens : List Text) : Bool :=
  match policy.checkMultipleWithOptions environment [tokens] (fun _ => .forbidden)
      resolving with
  | none => false
  | some evaluation =>
    evaluation.decision = .allow && evaluation.matchedRules.any fun ruleMatch =>
      isPolicyMatch ruleMatch && ruleMatch.decision = .allow

namespace ExecPolicyManager

variable (manager : ExecPolicyManager)

/-- The policy is changed only after the line was written. -/
def finish (appended : Except AmendError Unit × Text) (update : Except Error Policy) :
    Except ExecPolicyUpdateError Unit × ExecPolicyManager :=
  match appended.1 with
  | .error source => (.error (.appendRule source), { manager with file := appended.2 })
  | .ok () =>
    match update with
    | .error source => (.error (.addRule source), { manager with file := appended.2 })
    | .ok policy => (.ok (), ⟨appended.2, policy⟩)

/-- Allow a prefix in the file and in memory. -/
def appendAmendmentAndUpdate (environment : Environment) (fault : Option IoFault)
    (tokens : List Text) : Except ExecPolicyUpdateError Unit × ExecPolicyManager :=
  manager.finish (blockingAppendAllowPrefixRule fault manager.file tokens)
    (if manager.policy.alreadyAllowed environment tokens then .ok manager.policy
    else manager.policy.addPrefixRule tokens .allow)

/-- Decide about a host in the file and in memory. -/
def appendNetworkRuleAndUpdate (fault : Option IoFault) (host : Text)
    (protocol : NetworkRuleProtocol) (decision : Decision) (justification : Option Text) :
    Except ExecPolicyUpdateError Unit × ExecPolicyManager :=
  manager.finish
    (blockingAppendNetworkRule fault manager.file host protocol decision justification)
    (manager.policy.addNetworkRule host protocol decision justification)

def step (call : UpdateCall) : Except ExecPolicyUpdateError Unit × ExecPolicyManager :=
  match call.update with
  | .amendment tokens => manager.appendAmendmentAndUpdate call.environment call.fault tokens
  | .networkRule host protocol decision justification =>
    manager.appendNetworkRuleAndUpdate call.fault host protocol decision justification

def run (calls : List UpdateCall) : ExecPolicyManager :=
  calls.foldl (fun manager call => (manager.step call).2) manager

theorem run_concat (calls : List UpdateCall)
    (call : UpdateCall) : manager.run (calls ++ [call]) = ((manager.run calls).step call).2 := by
  rw [run, foldl_append]
  rfl

end ExecPolicyManager

variable {fault : Option IoFault} {contents : Text}

theorem writeRuleLine_ok {line : Text} (h : (writeRuleLine fault contents line).1 = .ok ()) :
    (writeRuleLine fault contents line).2 = appendLine contents line := by
  unfold writeRuleLine at h ⊢
  split at h
  · split at h
    next hnone => rw [if_pos hnone]
    · cases h
  · cases h
  · rfl

/-- A line that is there already is not appended again. -/
theorem appendRuleLine_ok {line : Text} (h : (appendRuleLine fault contents line).1 = .ok ()) :
    (appendRuleLine fault contents line).2 =
      if hasLine contents line then contents else appendLine contents line := by
  unfold appendRuleLine at h ⊢
  split at h
  iterate 5 cases h
  · by_cases hline : hasLine contents line
    · rw [if_pos hline, if_pos hline]
    · rw [if_neg hline] at h ⊢
      rw [if_neg hline, writeRuleLine_ok h]

variable {manager : ExecPolicyManager}

theorem ExecPolicyManager.finish_ok
    {appended : Except AmendError Unit × Text} {update : Except Error Policy}
    (h : (manager.finish appended update).1 = .ok ()) :
    appended.1 = .ok () ∧ ∃ policy, update = .ok policy ∧
      (manager.finish appended update).2 = ⟨appended.2, policy⟩ := by
  unfold finish at h ⊢
  cases happended : appended.1 with
  | error source =>
    rw [happended] at h
    cases h
  | ok done =>
    rw [happended] at h
    cases update with
    | error source => cases h
    | ok policy => exact ⟨rfl, policy, rfl, rfl⟩

/-! ## Staying in step -/

/-- The line that the update writes. -/
def PolicyUpdate.ruleCall : PolicyUpdate → RuleCall
  | .amendment tokens => .prefixRule tokens "allow".toList
  | .networkRule host protocol decision justification =>
    .networkRule host protocol.asPolicyString (networkDecisionString decision) justification

/-- The host is already in its normal form. -/
def PolicyUpdate.HasNormalHost : PolicyUpdate → Prop
  | .amendment _ => True
  | .networkRule host _ _ _ => normalizeNetworkRuleHost host = .ok host

namespace ExecPolicyManager

/-- The policy that is read from the file decides every command like the one in memory, and
has the same domains. -/
def InStep (reader : RulesReader) (manager : ExecPolicyManager) : Prop :=
  ∃ parsed, reader.parse manager.file = some parsed ∧
    Policy.SameDecisions parsed manager.policy ∧ Policy.SameDomains parsed manager.policy

/-- Both sides leave a rule out or add it, or the side that adds it is not changed by it. -/
def KeepsStep (manager : ExecPolicyManager) (call : UpdateCall) : Prop :=
  match call.update with
  | .amendment tokens =>
    hasLine manager.file call.update.ruleCall.render =
        manager.policy.alreadyAllowed call.environment tokens ∨
      manager.policy.matchExactRules tokens ≠ []
  | .networkRule host _ decision _ =>
    hasLine manager.file call.update.ruleCall.render = true →
      manager.policy.listsDomain host decision = true

end ExecPolicyManager

/-- What two policies have to agree on to decide alike, now and after the same rules. -/
structure Policy.Agrees (parsed policy : Policy) : Prop where
  exact : ∀ cmd, parsed.exactStrictness cmd = policy.exactStrictness cmd
  domains : ∀ host, parsed.hostDecision host = policy.hostDecision host

theorem Policy.agrees_iff {parsed policy : Policy}
    (hhosts : parsed.hostExecutablesByName = policy.hostExecutablesByName) :
    parsed.Agrees policy ↔
      Policy.SameDecisions parsed policy ∧ Policy.SameDomains parsed policy := by
  rw [sameDecisions_iff hhosts, sameDomains_iff]
  exact ⟨fun h => ⟨h.exact, h.domains⟩, fun h => ⟨h.1, h.2⟩⟩

variable {decision : Decision} {tokens : List Text}

section PrefixRules

variable {parsed parsed' policy policy' : Policy}

theorem Policy.hostDecision_addPrefixRule
    (h : policy.addPrefixRule tokens decision = .ok policy') (host : Text) :
    policy'.hostDecision host = policy.hostDecision host := by
  rw [hostDecision, hostDecision, networkRules_addPrefixRule h]

/-- An allowing rule changes nothing where its command was matched before. -/
theorem Policy.exactStrictness_addPrefixRule_eq_iff
    (h : policy.addPrefixRule tokens .allow = .ok policy') :
    (∀ cmd, policy'.exactStrictness cmd = policy.exactStrictness cmd) ↔
      policy.exactStrictness tokens ≠ 0 := by
  constructor
  · intro heq hzero
    have hself := exactStrictness_addPrefixRule h tokens
    rw [heq, hzero, if_pos prefix_rfl] at hself
    cases hself
  · intro hne cmd
    rw [exactStrictness_addPrefixRule h]
    by_cases hpre : tokens <+: cmd
    · have hcmd := exactStrictness_ne_zero_of_prefix hpre hne
      rw [if_pos hpre, Decision.severity]
      omega
    · rw [if_neg hpre, Nat.max_zero]

variable (hagrees : parsed.Agrees policy)
include hagrees

section

variable (hparsed : parsed.addPrefixRule tokens .allow = .ok parsed')
include hparsed

theorem Policy.Agrees.addPrefixRule
    (hpolicy : policy.addPrefixRule tokens .allow = .ok policy') : parsed'.Agrees policy' where
  exact cmd := by
    rw [exactStrictness_addPrefixRule hparsed, exactStrictness_addPrefixRule hpolicy, hagrees.exact]
  domains host := by
    rw [hostDecision_addPrefixRule hparsed, hostDecision_addPrefixRule hpolicy, hagrees.domains]

theorem Policy.Agrees.addPrefixRule_left_iff :
    parsed'.Agrees policy ↔ policy.exactStrictness tokens ≠ 0 := by
  rw [← hagrees.exact, ← exactStrictness_addPrefixRule_eq_iff hparsed]
  constructor
  · intro h cmd
    rw [h.exact, hagrees.exact]
  · intro heq
    refine ⟨fun cmd => (heq cmd).trans (hagrees.exact cmd), fun host => ?_⟩
    rw [hostDecision_addPrefixRule hparsed, hagrees.domains]

end

/-- The file may lack an allowing rule whose command was matched before. -/
theorem Policy.Agrees.addPrefixRule_right_iff
    (hpolicy : policy.addPrefixRule tokens .allow = .ok policy') :
    parsed.Agrees policy' ↔ policy.exactStrictness tokens ≠ 0 := by
  rw [← exactStrictness_addPrefixRule_eq_iff hpolicy]
  constructor
  · intro h cmd
    rw [← h.exact, hagrees.exact]
  · intro heq
    refine ⟨fun cmd => (hagrees.exact cmd).trans (heq cmd).symm, fun host => ?_⟩
    rw [hostDecision_addPrefixRule hpolicy, hagrees.domains]

end PrefixRules

variable {protocol : NetworkRuleProtocol} {justification : Option Text}

section NetworkRules

variable {parsed parsed' policy policy' : Policy} {host : Text}

section

variable (h : policy.addNetworkRule host protocol decision justification = .ok policy')
include h

theorem Policy.addNetworkRule_isOk (other : Policy) :
    ∃ amended, other.addNetworkRule host protocol decision justification = .ok amended := by
  unfold addNetworkRule at h ⊢
  cases hhost : normalizeNetworkRuleHost host with
  | error error =>
    rw [hhost] at h
    cases h
  | ok host =>
    simp only [hhost] at h ⊢
    split at h
    · cases h
    next hjustified => exact ⟨_, if_neg hjustified⟩

theorem Policy.exactStrictness_addNetworkRule
    (cmd : List Text) : policy'.exactStrictness cmd = policy.exactStrictness cmd := by
  have hrules := (addNetworkRule_eq h).1
  unfold exactStrictness
  cases cmd with
  | nil => rfl
  | cons first cmd => rw [matchExactRules, matchExactRules, rulesFor, rulesFor, hrules]

end

theorem Policy.Agrees.addNetworkRule (hagrees : parsed.Agrees policy)
    (hnormal : normalizeNetworkRuleHost host = .ok host)
    (hparsed : parsed.addNetworkRule host protocol decision justification = .ok parsed')
    (hpolicy : policy.addNetworkRule host protocol decision justification = .ok policy') :
    parsed'.Agrees policy' where
  exact cmd := by
    rw [exactStrictness_addNetworkRule hparsed,
      exactStrictness_addNetworkRule hpolicy, hagrees.exact]
  domains other := by
    rw [hostDecision_addNetworkRule hnormal hparsed,
      hostDecision_addNetworkRule hnormal hpolicy, hagrees.domains]

theorem Policy.Agrees.addNetworkRule_right_iff (hagrees : parsed.Agrees policy)
    (hnormal : normalizeNetworkRuleHost host = .ok host)
    (hpolicy : policy.addNetworkRule host protocol decision justification = .ok policy') :
    parsed.Agrees policy' ↔ policy.listsDomain host decision := by
  have hdecided (other : Text) : policy'.hostDecision other = _ :=
    hostDecision_addNetworkRule hnormal hpolicy
  have hagrees' : parsed.Agrees policy' ↔ ∀ other, policy.hostDecision other =
      policy'.hostDecision other := by
    constructor
    · intro h other
      rw [← hagrees.domains, h.domains]
    · intro heq
      refine ⟨fun cmd => ?_, fun other => (hagrees.domains other).trans (heq other)⟩
      rw [exactStrictness_addNetworkRule hpolicy, hagrees.exact]
  rw [hagrees', listsDomain_iff]
  by_cases hprompt : decision = .prompt
  · simp [hdecided, hprompt]
  · constructor
    · intro heq
      rw [heq, hdecided, if_pos ⟨rfl, hprompt⟩]
      exact .inr rfl
    · intro hlisted other
      have heq := hlisted.resolve_left hprompt
      rw [hdecided]
      split
      next hother => rw [← hother.1, heq]
      · rfl

end NetworkRules

section Step

variable {reader : RulesReader} {call : UpdateCall} {parsed : Policy}

/-- What a file holds after it took a rule is read as the rules it had, and the new one if
its line was not there. -/
theorem parse_of_appendRuleLine_ok
    {ruleCall : RuleCall} {parsed' : Policy} (hparse : reader.parse contents = some parsed)
    (happly : ruleCall.apply parsed = .ok parsed')
    (h : (appendRuleLine fault contents ruleCall.render).1 = .ok ()) :
    reader.parse (appendRuleLine fault contents ruleCall.render).2 =
      some (if hasLine contents ruleCall.render then parsed else parsed') := by
  rw [appendRuleLine_ok h]
  split
  · exact hparse
  · rw [reader.parse_appendLine contents parsed ruleCall hparse, happly]
    rfl

theorem ExecPolicyManager.step_amendment_ok
    (hupdate : call.update = .amendment tokens) (hparse : reader.parse manager.file = some parsed)
    (hok : (manager.step call).1 = .ok ()) :
    ∃ parsed' policy', parsed.addPrefixRule tokens .allow = .ok parsed' ∧
      manager.policy.addPrefixRule tokens .allow = .ok policy' ∧
      reader.parse (manager.step call).2.file =
        some (if hasLine manager.file call.update.ruleCall.render then parsed else parsed') ∧
      (manager.step call).2.policy =
        if manager.policy.alreadyAllowed call.environment tokens then manager.policy
        else policy' := by
  unfold step at hok ⊢
  rw [hupdate] at hok ⊢
  obtain ⟨happended, policy, hpolicy, hmanager⟩ := finish_ok hok
  have hne : tokens ≠ [] := by
    rintro rfl
    cases happended
  obtain ⟨parsed', hparsed'⟩ := parsed.exists_addPrefixRule hne .allow
  obtain ⟨policy', hpolicy'⟩ := manager.policy.exists_addPrefixRule hne .allow
  have hlines : blockingAppendAllowPrefixRule call.fault manager.file tokens =
      appendRuleLine call.fault manager.file
        (RuleCall.prefixRule tokens "allow".toList).render := if_neg hne
  have happly : (RuleCall.prefixRule tokens "allow".toList).apply parsed = .ok parsed' := by
    cases tokens with
    | nil => exact absurd rfl hne
    | cons first rest => exact hparsed'
  refine ⟨parsed', policy', hparsed', hpolicy', ?_, ?_⟩
  · change reader.parse (manager.finish _ _).2.file = _
    rw [hmanager]
    rw [hlines] at happended ⊢
    exact parse_of_appendRuleLine_ok hparse happly happended
  · change (manager.finish _ _).2.policy = _
    rw [hmanager]
    split at hpolicy
    next hallowed =>
      rw [if_pos hallowed]
      exact (Except.ok.inj hpolicy).symm
    next hallowed =>
      rw [if_neg hallowed]
      exact Except.ok.inj (hpolicy.symm.trans hpolicy')

theorem ExecPolicyManager.step_networkRule_ok {host : Text}
    (hupdate : call.update = .networkRule host protocol decision justification)
    (hnormal : normalizeNetworkRuleHost host = .ok host)
    (hparse : reader.parse manager.file = some parsed) (hok : (manager.step call).1 = .ok ()) :
    ∃ parsed' policy',
      parsed.addNetworkRule host protocol decision justification = .ok parsed' ∧
      manager.policy.addNetworkRule host protocol decision justification = .ok policy' ∧
      reader.parse (manager.step call).2.file =
        some (if hasLine manager.file call.update.ruleCall.render then parsed else parsed') ∧
      (manager.step call).2.policy = policy' := by
  unfold step at hok ⊢
  rw [hupdate] at hok ⊢
  obtain ⟨happended, policy', hpolicy', hmanager⟩ := finish_ok hok
  obtain ⟨parsed', hparsed'⟩ := addNetworkRule_isOk hpolicy' parsed
  have hlines : blockingAppendNetworkRule call.fault manager.file host protocol decision
      justification = appendRuleLine call.fault manager.file
        (networkRule host protocol.asPolicyString (networkDecisionString decision)
          justification).render := by
    unfold blockingAppendNetworkRule at happended ⊢
    rw [hnormal] at happended ⊢
    dsimp only at happended ⊢
    split_ifs at happended with hjustified
    rw [if_neg hjustified]
  have happly : (networkRule host protocol.asPolicyString
      (networkDecisionString decision) justification).apply parsed = .ok parsed' := by
    rw [apply, NetworkRuleProtocol.parse_asPolicyString, Except.bind,
      parse_networkDecisionString, Except.bind, hparsed']
  refine ⟨parsed', policy', hparsed', hpolicy', ?_, ?_⟩
  · change reader.parse (manager.finish _ _).2.file = _
    rw [hmanager]
    rw [hlines] at happended ⊢
    exact parse_of_appendRuleLine_ok hparse happly happended
  · change (manager.finish _ _).2.policy = _
    rw [hmanager]

/-- The file parses to a policy. -/
def ExecPolicyManager.Reads (reader : RulesReader) (manager : ExecPolicyManager)
    (parsed : Policy) : Prop :=
  reader.parse manager.file = some parsed ∧
    parsed.hostExecutablesByName = manager.policy.hostExecutablesByName

theorem ExecPolicyManager.Reads.inStep_iff (h : manager.Reads reader parsed) :
    manager.InStep reader ↔ parsed.Agrees manager.policy := by
  rw [agrees_iff h.2]
  constructor
  · rintro ⟨other, hother, hsame⟩
    obtain rfl := Option.some.inj (h.1.symm.trans hother)
    exact hsame
  · intro hsame
    exact ⟨parsed, h.1, hsame⟩

/-- One accepted call keeps the file and the policy in memory in agreement. -/
theorem ExecPolicyManager.Reads.step
    (hreads : manager.Reads reader parsed) (hagrees : parsed.Agrees manager.policy)
    (hok : (manager.step call).1 = .ok ()) (hnormal : call.update.HasNormalHost) :
    ∃ parsed', (manager.step call).2.Reads reader parsed' ∧
      (parsed'.Agrees (manager.step call).2.policy ↔ manager.KeepsStep call) := by
  obtain ⟨hparse, hhosts⟩ := hreads
  unfold KeepsStep
  cases hupdate : call.update with
  | amendment tokens =>
    obtain ⟨parsed', policy', hparsed', hpolicy', hfile, hpolicy⟩ :=
      step_amendment_ok hupdate hparse hok
    have hhosts' : parsed'.hostExecutablesByName = policy'.hostExecutablesByName := by
      rw [hostExecutablesByName_addPrefixRule hparsed',
        hostExecutablesByName_addPrefixRule hpolicy', hhosts]
    rw [hupdate] at hfile
    dsimp only
    unfold Reads
    rw [hfile, hpolicy, Ne, ← exactStrictness_eq_zero_iff]
    generalize hasLine manager.file (PolicyUpdate.amendment tokens).ruleCall.render = inFile
    generalize manager.policy.alreadyAllowed call.environment tokens = allowed
    cases inFile with
    | true =>
      cases allowed with
      | true => exact ⟨parsed, ⟨rfl, hhosts⟩, by simpa using hagrees⟩
      | false =>
        refine ⟨parsed, ⟨rfl, ?_⟩, ?_⟩
        · rw [hhosts, ← hostExecutablesByName_addPrefixRule hpolicy']
          rfl
        · simpa using hagrees.addPrefixRule_right_iff hpolicy'
    | false =>
      cases allowed with
      | true =>
        refine ⟨parsed', ⟨rfl, ?_⟩, ?_⟩
        · rw [hostExecutablesByName_addPrefixRule hparsed', hhosts]
          rfl
        · simpa using hagrees.addPrefixRule_left_iff hparsed'
      | false =>
        exact ⟨parsed', ⟨rfl, hhosts'⟩, by
          simpa using hagrees.addPrefixRule hparsed' hpolicy'⟩
  | networkRule host protocol decision justification =>
    rw [hupdate] at hnormal
    obtain ⟨parsed', policy', hparsed', hpolicy', hfile, hpolicy⟩ :=
      step_networkRule_ok hupdate hnormal hparse hok
    rw [hupdate] at hfile
    unfold Reads
    rw [hfile, hpolicy]
    have hhosts' := (addNetworkRule_eq hpolicy').2
    generalize hasLine manager.file (PolicyUpdate.networkRule host protocol decision
      justification).ruleCall.render = inFile
    cases inFile with
    | true =>
      refine ⟨parsed, ⟨rfl, hhosts.trans hhosts'.symm⟩, ?_⟩
      rw [hagrees.addNetworkRule_right_iff hnormal hpolicy']
      exact ⟨fun h _ => h, fun h => h rfl⟩
    | false =>
      refine ⟨parsed', ⟨rfl, ?_⟩, ?_⟩
      · rw [(addNetworkRule_eq hparsed').2, hhosts, hhosts']
      · exact ⟨fun _ h => (nomatch h), fun _ => hagrees.addNetworkRule hnormal hparsed' hpolicy'⟩

end Step

section Run

variable {reader : RulesReader} {calls : List UpdateCall}

/-- The file stays readable through a run of accepted calls. -/
theorem ExecPolicyManager.exists_reads_run
    (hloaded : reader.parse manager.file = some manager.policy)
    (hok : ∀ done call, done ++ [call] <+: calls → ((manager.run done).step call).1 = .ok ())
    (hnormal : ∀ call ∈ calls, call.update.HasNormalHost)
    (hkeeps : ∀ done call, done ++ [call] <+: calls →
      (manager.run (done ++ [call])).InStep reader ∨ (manager.run done).KeepsStep call)
    {done : List UpdateCall} (hdone : done <+: calls) :
    ∃ parsed, (manager.run done).Reads reader parsed ∧ parsed.Agrees (manager.run done).policy := by
  induction done using List.reverseRecOn with
  | nil => exact ⟨manager.policy, ⟨hloaded, rfl⟩, ⟨fun _ => rfl, fun _ => rfl⟩⟩
  | append_singleton done call ih =>
    obtain ⟨parsed, hreads, hagrees⟩ := ih ((prefix_append done [call]).trans hdone)
    have hmem : call ∈ calls := hdone.subset (by simp)
    obtain ⟨parsed', hreads', hiff⟩ := hreads.step hagrees (hok done call hdone) (hnormal call hmem)
    rw [← run_concat] at hreads' hiff
    refine ⟨parsed', hreads', ?_⟩
    rcases hkeeps done call hdone with hstep | hcondition
    · exact hreads'.inStep_iff.mp hstep
    · exact hiff.mpr hcondition

/-- File and policy stay in step through a run of successful calls exactly if every call
meets its condition in the state before it. -/
theorem stays_in_step_iff (hloaded : reader.parse manager.file = some manager.policy)
    (hok : ∀ done call, done ++ [call] <+: calls → ((manager.run done).step call).1 = .ok ())
    (hnormal : ∀ call ∈ calls, call.update.HasNormalHost) :
    (∀ done call, done ++ [call] <+: calls → (manager.run (done ++ [call])).InStep reader) ↔
      ∀ done call, done ++ [call] <+: calls → (manager.run done).KeepsStep call := by
  constructor
  · intro hsteps done call hdone
    obtain ⟨parsed, hreads, hagrees⟩ := exists_reads_run hloaded hok hnormal
      (fun done call hdone => .inl (hsteps done call hdone))
      ((prefix_append done [call]).trans hdone)
    have hmem : call ∈ calls := hdone.subset (by simp)
    obtain ⟨parsed', hreads', hiff⟩ := hreads.step hagrees (hok done call hdone) (hnormal call hmem)
    rw [← run_concat] at hreads' hiff
    exact hiff.mp (hreads'.inStep_iff.mp (hsteps done call hdone))
  · intro hconditions done call hdone
    obtain ⟨parsed, hreads, hagrees⟩ := exists_reads_run hloaded hok hnormal
      (fun done call hdone => .inr (hconditions done call hdone)) hdone
    exact hreads.inStep_iff.mpr hagrees

end Run

def emptyManager : ExecPolicyManager := ⟨[], ⟨[], [], []⟩⟩

def plainCall (update : PolicyUpdate) : UpdateCall := ⟨update, rootEnvironment, none⟩

def decideExample (decision : Decision) : UpdateCall :=
  plainCall (.networkRule "example.com".toList .https decision none)

theorem hasNormalHost_decideExample (decision : Decision) :
    (decideExample decision).update.HasNormalHost := by
  change normalizeNetworkRuleHost "example.com".toList = .ok "example.com".toList
  decide +kernel

def repeatedAmendment : List UpdateCall :=
  [plainCall (.amendment ["ls".toList]), plainCall (.amendment ["ls".toList]),
    decideExample .allow, decideExample .forbidden]

/-- A repeated rule and a reversed one keep in step. -/
theorem repeatedAmendment_in_step :
    lineReader.parse emptyManager.file = some emptyManager.policy ∧
      ∀ done call, done ++ [call] <+: repeatedAmendment →
        (emptyManager.run (done ++ [call])).InStep lineReader := by
  refine ⟨by decide +kernel, (stays_in_step_iff (by decide +kernel) ?_ ?_).mpr ?_⟩
  · simp only [repeatedAmendment, forall_concat_prefix_cons, forall_concat_prefix_nil]
    decide +kernel
  · simp only [repeatedAmendment, forall_mem_cons]
    exact ⟨trivial, trivial, hasNormalHost_decideExample _, hasNormalHost_decideExample _,
      fun _ h => (nomatch h)⟩
  · simp only [repeatedAmendment, forall_concat_prefix_cons, forall_concat_prefix_nil]
    refine ⟨.inl ?_, .inl ?_, ?_, ?_, trivial⟩
    · decide +kernel
    · decide +kernel
    · exact fun h => absurd h (by decide +kernel)
    · exact fun h => absurd h (by decide +kernel)

def deniedAgain : List UpdateCall :=
  [decideExample .forbidden, decideExample .allow, decideExample .forbidden]

def gitRules : Text :=
  appendLine (appendLine [] (RuleCall.prefixRule ["git".toList] "allow".toList).render)
    (RuleCall.prefixRule ["git".toList, "push".toList] "forbidden".toList).render

def gitManager : ExecPolicyManager :=
  ⟨gitRules, ⟨[prefixRule ["git"] .allow, prefixRule ["git", "push"] .forbidden], [], []⟩⟩

def allowPathCall : UpdateCall := plainCall (.amendment gitPath)

/-- The second denial is not written to the file, whose last line on the host allows it.  A
rule for the path of `git` is written, but not taken by the policy, which allows it by
name; the file then allows what the policy forbids. -/
theorem file_and_policy_come_apart :
    lineReader.parse emptyManager.file = some emptyManager.policy ∧
      (∀ done call, done ++ [call] <+: deniedAgain →
        ((emptyManager.run done).step call).1 = .ok ()) ∧
      (∀ call ∈ deniedAgain, call.update.HasNormalHost) ∧
      (emptyManager.run deniedAgain).policy.compiledNetworkDomains = ([], ["example.com".toList]) ∧
      (lineReader.parse (emptyManager.run deniedAgain).file).map
        (·.compiledNetworkDomains) = some (["example.com".toList], []) ∧
      ¬ (emptyManager.run deniedAgain).InStep lineReader ∧
    lineReader.parse gitManager.file = some gitManager.policy ∧
      (gitManager.step allowPathCall).1 = .ok () ∧
      ((gitManager.step allowPathCall).2.policy.checkWithOptions rootEnvironment gitPathPush
        (fun _ => .prompt) resolving).map (·.decision) = some .forbidden ∧
      ((lineReader.parse (gitManager.step allowPathCall).2.file).bind fun parsed =>
        (parsed.checkWithOptions rootEnvironment gitPathPush (fun _ => .prompt)
          resolving).map (·.decision)) = some .allow ∧
      ¬ (gitManager.step allowPathCall).2.InStep lineReader := by
  have hdomains : (lineReader.parse (emptyManager.run deniedAgain).file).map
      (·.compiledNetworkDomains) = some (["example.com".toList], []) := by decide +kernel
  have hpush : ((lineReader.parse (gitManager.step allowPathCall).2.file).bind fun parsed =>
      (parsed.checkWithOptions rootEnvironment gitPathPush (fun _ => .prompt)
        resolving).map (·.decision)) = some .allow := by decide +kernel
  refine ⟨by decide +kernel, ?_, ?_, by decide +kernel, hdomains, ?_, by decide +kernel,
    by decide +kernel, by decide +kernel, hpush, ?_⟩
  · simp only [deniedAgain, forall_concat_prefix_cons, forall_concat_prefix_nil]
    decide +kernel
  · simp only [deniedAgain, forall_mem_cons]
    exact ⟨hasNormalHost_decideExample _, hasNormalHost_decideExample _,
      hasNormalHost_decideExample _, fun _ h => (nomatch h)⟩
  · rintro ⟨parsed, hparse, -, hsame⟩
    rw [hparse] at hdomains
    have hparsed : parsed.compiledNetworkDomains = _ := Option.some.inj hdomains
    have hallowed := (hsame "example.com".toList).1
    rw [hparsed] at hallowed
    exact absurd (hallowed.mp (by decide +kernel)) (by decide +kernel)
  · rintro ⟨parsed, hparse, hsame, -⟩
    rw [hparse, Option.bind_some, hsame] at hpush
    exact absurd hpush (by decide +kernel)

end Rexux.ExecPolicy
