import Rexux.ExecPolicy.Strictness
import Rexux.Permissions.WriteDecision

/-!
# Approval of commands

A command is run, shown to the user or refused by the strictest decision for the
commands it is parsed into.  Commands that no rule matches are decided by heuristics,
and then a rule may be proposed that allows them in the future.  The proposal is checked
against the commands of the request only.

Accepting a proposal keeps every decision of a rule, except that an allowing rule for a
path takes the place of the rules for the name of its executable
(`accepted_amendment_keeps_decision_iff`).
-/

namespace Rexux.ExecPolicy

open Foundation Rexux.Path Rexux.Permissions Policy Option

/-! ## Requests -/

structure GranularApprovalConfig where
  sandboxApproval : Bool
  rules : Bool
  deriving DecidableEq, Repr

/-- When the user is asked. -/
inductive AskForApproval
  | unlessTrusted
  | onRequest
  | granular (config : GranularApprovalConfig)
  | never
  deriving DecidableEq, Repr

inductive ManagedFileSystemPermissions
  | restricted (entries : List FileSystemSandboxEntry) (globScanMaxDepth : Option ℕ)
  | unrestricted
  deriving DecidableEq, Repr

def ManagedFileSystemPermissions.toSandboxPolicy :
    ManagedFileSystemPermissions → FileSystemSandboxPolicy
  | .restricted entries globScanMaxDepth => ⟨.restricted, globScanMaxDepth, entries⟩
  | .unrestricted => ⟨.unrestricted, none, []⟩

/-- The network part of a profile is not read here. -/
inductive PermissionProfile
  | managed (fileSystem : ManagedFileSystemPermissions)
  | disabled
  | external
  deriving DecidableEq, Repr

namespace PermissionProfile

/-- The file system policy of a profile; without a sandbox everything is allowed. -/
def fileSystemSandboxPolicy : PermissionProfile → FileSystemSandboxPolicy
  | .managed fileSystem => fileSystem.toSandboxPolicy
  | .disabled => ⟨.unrestricted, none, []⟩
  | .external => ⟨.externalSandbox, none, []⟩

def isManaged : PermissionProfile → Bool
  | .managed _ => true
  | _ => false

def hasManagedFilesystemRestrictions (profile : PermissionProfile) : Bool :=
  profile.isManaged && profile.fileSystemSandboxPolicy.kind = .restricted &&
    !profile.fileSystemSandboxPolicy.hasFullDiskWriteAccess

end PermissionProfile

inductive WindowsSandboxLevel
  | disabled
  | restrictedToken
  | elevated
  deriving DecidableEq, Repr

/-- What a command asks for beyond its sandbox. -/
inductive SandboxPermissions
  | useDefault
  | requireEscalated
  | withAdditionalPermissions
  deriving DecidableEq, Repr

def SandboxPermissions.requestsSandboxOverride (permissions : SandboxPermissions) : Bool :=
  permissions ≠ .useDefault

/-- Whether rules that allow a command count. -/
inductive AllowPrefixRules
  | honor
  | ignoreForCyberModel
  deriving DecidableEq, Repr

/-- A command with all that its approval depends on. -/
structure ExecApprovalRequest where
  command : List Text
  approvalPolicy : AskForApproval
  permissionProfile : PermissionProfile
  environmentPolicy : Option Policy
  windowsSandboxLevel : WindowsSandboxLevel
  sandboxPermissions : SandboxPermissions
  prefixRule : Option (List Text)
  allowPrefixRules : AllowPrefixRules
  deriving DecidableEq, Repr

inductive ExecPolicyCommandOrigin
  | generic
  | powerShell
  deriving DecidableEq, Repr

/-- The commands that a shell script is made of. -/
structure ExecPolicyCommands where
  commands : List (List Text)
  commandOrigin : ExecPolicyCommandOrigin
  deriving DecidableEq, Repr

inductive DangerousCommandPlatform
  | posix
  | windows
  deriving DecidableEq, Repr

inductive DangerousCommandMatch
  | forcedRm
  | other
  deriving DecidableEq, Repr

/-- What has to happen before the command runs. -/
inductive ExecApprovalRequirement
  | skip (bypassSandbox : Bool) (proposedExecpolicyAmendment : Option (List Text))
  | needsApproval (reason : Option Text) (proposedExecpolicyAmendment : Option (List Text))
  | forbidden (reason : Text)
  deriving DecidableEq, Repr

def ExecApprovalRequirement.proposedExecpolicyAmendment :
    ExecApprovalRequirement → Option (List Text)
  | .skip _ amendment => amendment
  | .needsApproval _ amendment => amendment
  | .forbidden _ => none

/-- The shell parsers and the tests for safe and dangerous commands. -/
structure ShellTools where
  parseShellLcPlainCommands : List Text → Option (List (List Text))
  parsePowershellCommandIntoPlainCommands : List Text → Option (List (List Text))
  dangerousCommandMatchForPlatform :
    List Text → DangerousCommandPlatform → Option DangerousCommandMatch
  dangerousPowershellWordsMatch :
    List Text → DangerousCommandPlatform → Option DangerousCommandMatch
  tryJoin : List Text → Option Text
  cfgWindows : Bool

def isPolicyMatch (ruleMatch : RuleMatch) : Bool := !ruleMatch.isHeuristics

namespace Policy

/-- The policy without the rules that are to be ignored. -/
def currentForPrefixRules (policy : Policy) : AllowPrefixRules → Policy
  | .honor => policy
  | .ignoreForCyberModel =>
    { policy with
      rulesByProgram := policy.rulesByProgram.filter (·.2.decision ≠ .allow) }

/-- The policy of the environment lies over the one of the session. -/
def currentForEnvironment (policy : Policy) (environmentPolicy : Option Policy)
    (allowPrefixRules : AllowPrefixRules) : Policy :=
  match environmentPolicy with
  | some environmentPolicy =>
    (policy.currentForPrefixRules allowPrefixRules).mergeOverlay environmentPolicy
  | none => policy.currentForPrefixRules allowPrefixRules

/-- The evaluation of everything that the commands match. -/
def checkMultipleWithOptions (policy : Policy) (environment : Environment)
    (commands : List (List Text)) (heuristicsFallback : List Text → Decision)
    (options : MatchOptions) : Option Evaluation :=
  Evaluation.fromMatches (commands.flatMap fun command =>
    policy.matchesForCommandWithOptions environment command (some heuristicsFallback) options)

end Policy

/-! ## Decisions without a rule -/

namespace ShellTools

variable (tools : ShellTools)

/-- The commands that a script runs, or the script itself if it is not plain. -/
def commandsForExecPolicyForPlatform (command : List Text)
    (commandPlatform : DangerousCommandPlatform) : ExecPolicyCommands :=
  match (tools.parseShellLcPlainCommands command).filter (· ≠ []) with
  | some commands => ⟨commands, .generic⟩
  | none =>
    match if commandPlatform = .windows then
        (tools.parsePowershellCommandIntoPlainCommands command).filter (· ≠ [])
      else none with
    | some commands => ⟨commands, .powerShell⟩
    | none => ⟨[command], .generic⟩

def dangerousCommandMatchForOrigin (command : List Text)
    (commandOrigin : ExecPolicyCommandOrigin) (commandPlatform : DangerousCommandPlatform) :
    Option DangerousCommandMatch :=
  match commandOrigin with
  | .generic => tools.dangerousCommandMatchForPlatform command commandPlatform
  | .powerShell => tools.dangerousPowershellWordsMatch command commandPlatform

def dangerousCommandMatchForHeuristics (evaluation : Evaluation) (decision : Decision)
    (commandOrigin : ExecPolicyCommandOrigin) (commandPlatform : DangerousCommandPlatform) :
    Option DangerousCommandMatch :=
  evaluation.matchedRules.findSome? fun
    | .heuristicsRuleMatch command matchedDecision =>
      if matchedDecision = decision then
        tools.dangerousCommandMatchForOrigin command commandOrigin commandPlatform
      else none
    | _ => none

/-- The decision for a command that no rule matches. -/
def renderDecisionForUnmatchedCommandForPlatform (request : ExecApprovalRequest)
    (commandOrigin : ExecPolicyCommandOrigin) (commandPlatform : DangerousCommandPlatform)
    (command : List Text) : Decision :=
  let withoutSandboxBackend := tools.cfgWindows &&
    request.windowsSandboxLevel = .disabled &&
    request.permissionProfile.hasManagedFilesystemRestrictions
  let sandboxed :=
    match request.permissionProfile.fileSystemSandboxPolicy.kind with
    | .unrestricted => .allow
    | .externalSandbox => .allow
    | .restricted =>
      if request.sandboxPermissions.requestsSandboxOverride then .prompt else .allow
  if (tools.dangerousCommandMatchForOrigin command commandOrigin commandPlatform).isSome ||
      withoutSandboxBackend then
    match request.approvalPolicy with
    | .never => .forbidden
    | _ => .prompt
  else
    match request.approvalPolicy with
    | .never => .allow
    | .unlessTrusted => .prompt
    | .onRequest => sandboxed
    | .granular _ => sandboxed

end ShellTools

/-! ## Proposed amendments -/

/-- Prefixes that would allow anything and are not suggested. -/
def bannedPrefixSuggestions : List (List String) :=
  [["/bin/bash"], ["/bin/bash", "-c"], ["/bin/bash", "-lc"], ["/bin/sh"], ["/bin/sh", "-c"],
    ["/bin/sh", "-lc"], ["/bin/zsh"], ["/bin/zsh", "-c"], ["/bin/zsh", "-lc"], ["Rscript"],
    ["bash"], ["bash", "-c"], ["bash", "-lc"], ["bun"], ["bun", "-e"], ["bun", "run"], ["cmd"],
    ["cmd", "/c"], ["cmd", "/k"], ["cmd.exe"], ["cmd.exe", "/c"], ["cmd.exe", "/k"], ["dash"],
    ["dash", "-c"], ["deno"], ["deno", "eval"], ["env"], ["fish"], ["fish", "-c"], ["git"],
    ["julia"], ["julia", "-e"], ["ksh"], ["ksh", "-c"], ["lua"], ["lua", "-e"], ["node"],
    ["node", "-e"], ["nodejs"], ["nodejs", "-e"], ["npm", "run"], ["osascript"], ["perl"],
    ["perl", "-e"], ["php"], ["php", "-r"], ["pnpm", "run"], ["powershell"],
    ["powershell", "-Command"], ["powershell", "-EncodedCommand"], ["powershell", "-File"],
    ["powershell", "-c"], ["powershell.exe"], ["powershell.exe", "-Command"],
    ["powershell.exe", "-EncodedCommand"], ["powershell.exe", "-File"],
    ["powershell.exe", "-c"], ["pwsh"], ["pwsh", "-Command"], ["pwsh", "-EncodedCommand"],
    ["pwsh", "-File"], ["pwsh", "-c"], ["pwsh", "-e"], ["pwsh", "-ec"], ["pwsh", "-f"], ["py"],
    ["py", "-3"], ["pypy"], ["pypy3"], ["python"], ["python", "-"], ["python", "-c"],
    ["python3"], ["python3", "-"], ["python3", "-c"], ["pythonw"], ["pyw"], ["rm"], ["ruby"],
    ["ruby", "-e"], ["sh"], ["sh", "-c"], ["sh", "-lc"], ["sudo"], ["yarn", "run"], ["zsh"],
    ["zsh", "-c"], ["zsh", "-lc"]]

def heuristicsCommand (decision : Decision) : RuleMatch → Option (List Text)
  | .heuristicsRuleMatch command matchedDecision =>
    if matchedDecision = decision then some command else none
  | .prefixRuleMatch _ _ _ _ => none

/-- The command that made the prompt, if only heuristics did. -/
def tryDeriveExecpolicyAmendmentForPromptRules (matchedRules : List RuleMatch) :
    Option (List Text) :=
  if matchedRules.any fun ruleMatch =>
      isPolicyMatch ruleMatch && ruleMatch.decision = .prompt then none
  else matchedRules.findSome? (heuristicsCommand .prompt)

/-- The command that was allowed, if only heuristics did. -/
def tryDeriveExecpolicyAmendmentForAllowRules (matchedRules : List RuleMatch) :
    Option (List Text) :=
  if matchedRules.any isPolicyMatch then none
  else matchedRules.findSome? (heuristicsCommand .allow)

/-- With the rule added every command is allowed. -/
def prefixRuleWouldApproveAllCommands (environment : Environment) (execPolicy : Policy)
    (prefixRule : List Text) (commands : List (List Text))
    (execPolicyFallback : List Text → Decision) (matchOptions : MatchOptions) : Bool :=
  match execPolicy.addPrefixRule prefixRule .allow with
  | .error _ => false
  | .ok policyWithPrefixRule =>
    commands.all fun command =>
      (policyWithPrefixRule.checkWithOptions environment command execPolicyFallback
        matchOptions).map (·.decision) = some .allow

/-- The rule that the model has asked for, if it may be suggested. -/
def deriveRequestedExecpolicyAmendmentFromPrefixRule (environment : Environment)
    (prefixRule : Option (List Text)) (matchedRules : List RuleMatch) (execPolicy : Policy)
    (commands : List (List Text)) (execPolicyFallback : List Text → Decision)
    (matchOptions : MatchOptions) : Option (List Text) :=
  prefixRule.filter fun prefixRule =>
    prefixRule ≠ [] &&
      !bannedPrefixSuggestions.any (fun banned => banned.map String.toList = prefixRule) &&
      !matchedRules.any isPolicyMatch &&
      prefixRuleWouldApproveAllCommands environment execPolicy prefixRule commands
        execPolicyFallback matchOptions

/-! ## Reasons -/

def promptConflictReason : Text :=
  "approval required by policy, but AskForApproval is set to Never".toList

def rejectSandboxApprovalReason : Text :=
  "approval required by policy, but AskForApproval::Granular.sandbox_approval is false".toList

def rejectRulesApprovalReason : Text :=
  "approval required by policy rule, but AskForApproval::Granular.rules is false".toList

/-- The reason why the user may not be asked. -/
def promptIsRejectedByPolicy (approvalPolicy : AskForApproval) (promptIsRule : Bool) :
    Option Text :=
  match approvalPolicy with
  | .never => some promptConflictReason
  | .onRequest => none
  | .unlessTrusted => none
  | .granular config =>
    if promptIsRule then
      if !config.rules then some rejectRulesApprovalReason else none
    else if !config.sandboxApproval then some rejectSandboxApprovalReason
    else none

/-- The longest prefix among the rules of a decision, with its justification. -/
def mostSpecificMatch (decision : Decision) (matchedRules : List RuleMatch) :
    Option (List Text × Option Text) :=
  maxByKey (fun found : List Text × Option Text => found.1.length)
    (matchedRules.filterMap fun
      | .prefixRuleMatch matchedPrefix matchedDecision _ justification =>
        if matchedDecision = decision then some (matchedPrefix, justification) else none
      | .heuristicsRuleMatch _ _ => none)

def dangerousCommandRejectionReason : DangerousCommandMatch → Text
  | .forcedRm => "rm -f style commands are not permitted. Use a safer approach".toList
  | .other => "blocked by policy".toList

def deriveRejectedPromptReason (fallbackReason : Text) : Option DangerousCommandMatch → Text
  | some .forcedRm => dangerousCommandRejectionReason .forcedRm
  | some .other => fallbackReason
  | none => fallbackReason

namespace ShellTools

variable (tools : ShellTools)

def renderShlexCommand (args : List Text) : Text :=
  (tools.tryJoin args).getD (List.intercalate [' '] args)

def derivePromptReason (commandArgs : List Text) (evaluation : Evaluation) : Option Text :=
  let command := tools.renderShlexCommand commandArgs
  (mostSpecificMatch .prompt evaluation.matchedRules).map fun
    | (_, some justification) =>
      "`".toList ++ command ++ "` requires approval: ".toList ++ justification
    | (_, none) => "`".toList ++ command ++ "` requires approval by policy".toList

/-- The reason that is shown for a forbidden command. -/
def deriveForbiddenReason (commandArgs : List Text) (evaluation : Evaluation)
    (dangerousCommandMatch : Option DangerousCommandMatch) : Text :=
  let rejected := "`".toList ++ tools.renderShlexCommand commandArgs ++ "` rejected: ".toList
  match mostSpecificMatch .forbidden evaluation.matchedRules with
  | some (_, some justification) => rejected ++ justification
  | some (matchedPrefix, none) =>
    rejected ++ "policy forbids commands starting with `".toList ++
      tools.renderShlexCommand matchedPrefix ++ "`".toList
  | none =>
    match dangerousCommandMatch with
    | some dangerous => rejected ++ dangerousCommandRejectionReason dangerous
    | none => rejected ++ "blocked by policy".toList

/-! ## The requirement

Executables are resolved in every decision about a request. -/

def requestedAmendment (environment : Environment) (request : ExecApprovalRequest)
    (execPolicy : Policy) (parsed : ExecPolicyCommands)
    (commandPlatform : DangerousCommandPlatform) (evaluation : Evaluation) : Option (List Text) :=
  if request.allowPrefixRules = .honor then
    deriveRequestedExecpolicyAmendmentFromPrefixRule environment request.prefixRule
      evaluation.matchedRules execPolicy parsed.commands
      (tools.renderDecisionForUnmatchedCommandForPlatform request parsed.commandOrigin
        commandPlatform) resolving
  else none

/-- The requirement that follows from an evaluation. -/
def requirementFor (environment : Environment) (request : ExecApprovalRequest)
    (execPolicy : Policy) (parsed : ExecPolicyCommands)
    (commandPlatform : DangerousCommandPlatform) (evaluation : Evaluation) :
    ExecApprovalRequirement :=
  let autoAmendmentAllowed := request.allowPrefixRules = .honor
  match evaluation.decision with
  | .forbidden =>
    .forbidden (tools.deriveForbiddenReason request.command evaluation
      (tools.dangerousCommandMatchForHeuristics evaluation .forbidden parsed.commandOrigin
        commandPlatform))
  | .prompt =>
    let promptIsRule := evaluation.matchedRules.any fun ruleMatch =>
      isPolicyMatch ruleMatch && ruleMatch.decision = .prompt
    match promptIsRejectedByPolicy request.approvalPolicy promptIsRule with
    | some reason =>
      if promptIsRule then .forbidden reason
      else
        .forbidden (deriveRejectedPromptReason reason
          (tools.dangerousCommandMatchForHeuristics evaluation .prompt parsed.commandOrigin
            commandPlatform))
    | none =>
      .needsApproval (tools.derivePromptReason request.command evaluation)
        ((tools.requestedAmendment environment request execPolicy parsed commandPlatform
          evaluation).or
          (if autoAmendmentAllowed then
            tryDeriveExecpolicyAmendmentForPromptRules evaluation.matchedRules
          else none))
  | .allow =>
    .skip
      (parsed.commands.all fun command =>
        (execPolicy.matchesForCommandWithOptions environment command none resolving).any
          fun ruleMatch => isPolicyMatch ruleMatch && ruleMatch.decision = .allow)
      (if autoAmendmentAllowed then
        tryDeriveExecpolicyAmendmentForAllowRules evaluation.matchedRules
      else none)

/-- `none` where the source panics, for a request without commands. -/
def createExecApprovalRequirementForParsedCommands (environment : Environment)
    (policy : Policy) (request : ExecApprovalRequest) (parsed : ExecPolicyCommands)
    (commandPlatform : DangerousCommandPlatform) : Option ExecApprovalRequirement :=
  let execPolicy := policy.currentForEnvironment request.environmentPolicy request.allowPrefixRules
  (execPolicy.checkMultipleWithOptions environment parsed.commands
    (tools.renderDecisionForUnmatchedCommandForPlatform request parsed.commandOrigin
      commandPlatform) resolving).map
    (tools.requirementFor environment request execPolicy parsed commandPlatform)

/-- The requirement for a request. -/
def createExecApprovalRequirementForCommandPlatform (environment : Environment)
    (policy : Policy) (request : ExecApprovalRequest)
    (commandPlatform : DangerousCommandPlatform) : Option ExecApprovalRequirement :=
  tools.createExecApprovalRequirementForParsedCommands environment policy request
    (tools.commandsForExecPolicyForPlatform request.command commandPlatform) commandPlatform

end ShellTools

/-! ## What is proposed -/

variable {environment : Environment} {command : List Text} {decision : Decision}
  {options : MatchOptions} {heuristicsFallback : List Text → Decision} {policy : Policy}

theorem eq_of_heuristicsRuleMatch_mem {cmd : List Text}
    (h : .heuristicsRuleMatch command decision ∈
      policy.matchesForCommandWithOptions environment cmd (some heuristicsFallback) options) :
    command = cmd ∧ policy.matchedRules environment cmd options = [] := by
  unfold matchesForCommandWithOptions at h
  cases hmatched : policy.matchedRules environment cmd options with
  | nil =>
    rw [hmatched] at h
    cases List.mem_singleton.mp h
    exact ⟨rfl, rfl⟩
  | cons ruleMatch rest =>
    rw [hmatched] at h
    have hmem : .heuristicsRuleMatch command decision ∈
        policy.matchedRules environment cmd options := by
      rw [hmatched]
      exact h
    cases isHeuristics_of_mem_matchedRules hmem

variable {evaluation : Evaluation} {commands : List (List Text)}

theorem mem_of_findSome?_heuristicsCommand
    (heval : policy.checkMultipleWithOptions environment commands heuristicsFallback options =
      some evaluation)
    (h : evaluation.matchedRules.findSome? (heuristicsCommand decision) = some command) :
    command ∈ commands ∧ policy.matchedRules environment command options = [] := by
  obtain ⟨chosen, -, rfl⟩ := map_eq_some_iff.mp heval
  obtain ⟨ruleMatch, hmem, hcommand⟩ := List.exists_of_findSome?_eq_some h
  obtain ⟨cmd, hcmd, hmatch⟩ := List.mem_flatMap.mp hmem
  cases ruleMatch with
  | prefixRuleMatch => cases hcommand
  | heuristicsRuleMatch matchedCommand matchedDecision =>
    rw [heuristicsCommand] at hcommand
    split_ifs at hcommand
    obtain rfl := some.inj hcommand
    obtain ⟨rfl, hnone⟩ := eq_of_heuristicsRuleMatch_mem hmatch
    exact ⟨hcmd, hnone⟩

theorem mem_of_tryDeriveExecpolicyAmendment {amendment : List Text}
    (heval : policy.checkMultipleWithOptions environment commands heuristicsFallback options =
      some evaluation)
    (h : tryDeriveExecpolicyAmendmentForPromptRules evaluation.matchedRules = some amendment ∨
      tryDeriveExecpolicyAmendmentForAllowRules evaluation.matchedRules = some amendment) :
    amendment ∈ commands ∧ policy.matchedRules environment amendment options = [] := by
  rcases h with hprompt | hallow
  · unfold tryDeriveExecpolicyAmendmentForPromptRules at hprompt
    split_ifs at hprompt
    exact mem_of_findSome?_heuristicsCommand heval hprompt
  · unfold tryDeriveExecpolicyAmendmentForAllowRules at hallow
    split_ifs at hallow
    exact mem_of_findSome?_heuristicsCommand heval hallow

variable {parsed : ExecPolicyCommands} {commandPlatform : DangerousCommandPlatform}
  {request : ExecApprovalRequest}

theorem prefixRule_of_requestedAmendment {tools : ShellTools}
    {execPolicy : Policy} {amendment : List Text}
    (h : tools.requestedAmendment environment request execPolicy parsed commandPlatform
      evaluation = some amendment) : request.prefixRule = some amendment := by
  unfold ShellTools.requestedAmendment at h
  split_ifs at h
  exact (filter_eq_some_iff.mp h).1

/-- An amendment is proposed only out of the request or of a command that no rule has matched. -/
theorem origin_of_proposed {tools : ShellTools}
    {requirement : ExecApprovalRequirement} {amendment : List Text}
    (hrequirement : tools.createExecApprovalRequirementForParsedCommands environment policy
      request parsed commandPlatform = some requirement)
    (hproposed : requirement.proposedExecpolicyAmendment = some amendment) :
    request.prefixRule = some amendment ∨
      amendment ∈ parsed.commands ∧ (policy.currentForEnvironment request.environmentPolicy
          request.allowPrefixRules).matchedRules environment amendment resolving = [] := by
  obtain ⟨evaluation, heval, rfl⟩ := map_eq_some_iff.mp hrequirement
  unfold ShellTools.requirementFor at hproposed
  cases hdecision : evaluation.decision with
  | forbidden =>
    rw [hdecision] at hproposed
    cases hproposed
  | prompt =>
    rw [hdecision] at hproposed
    dsimp only at hproposed
    split at hproposed
    · split at hproposed <;> cases hproposed
    · rcases or_eq_some_iff.mp hproposed with hrequested | ⟨-, hderived⟩
      · exact .inl (prefixRule_of_requestedAmendment hrequested)
      · split at hderived
        · exact .inr (mem_of_tryDeriveExecpolicyAmendment heval (.inl hderived))
        · cases hderived
  | allow =>
    rw [hdecision] at hproposed
    change (if _ then _ else _) = _ at hproposed
    split_ifs at hproposed
    exact .inr (mem_of_tryDeriveExecpolicyAmendment heval (.inr hproposed))

/-- The decision for a command is at least as strict under the second policy. -/
def KeepsDecision (policy amended : Policy) (environment : Environment) (cmd : List Text)
    (heuristicsFallback : List Text → Decision) : Prop :=
  ∃ before after,
    policy.checkWithOptions environment cmd heuristicsFallback resolving = some before ∧
    amended.checkWithOptions environment cmd heuristicsFallback resolving = some after ∧
    before.decision.severity ≤ after.decision.severity

section Amended

variable {amended : Policy} {amendment cmd : List Text}

/-- Among matched commands a decision stays if its strictness does. -/
theorem keepsDecision_iff (hmatch : policy.matchedRules environment cmd resolving ≠ [])
    (hamended : amended.matchedRules environment cmd resolving ≠ []) :
    KeepsDecision policy amended environment cmd heuristicsFallback ↔
      strictness (policy.matchedRules environment cmd resolving) ≤
        strictness (amended.matchedRules environment cmd resolving) := by
  obtain ⟨before, hbefore, hseverity⟩ :=
    @checkWithOptions_severity policy environment cmd heuristicsFallback resolving
  obtain ⟨after, hafter, hseverity'⟩ :=
    @checkWithOptions_severity amended environment cmd heuristicsFallback resolving
  have hpositive := mt strictness_eq_zero_iff.mp hmatch
  have hpositive' := mt strictness_eq_zero_iff.mp hamended
  rw [if_neg hpositive] at hseverity
  rw [if_neg hpositive'] at hseverity'
  constructor
  · rintro ⟨evaluation, evaluation', heval, heval', hle⟩
    obtain rfl := some.inj (hbefore.symm.trans heval)
    obtain rfl := some.inj (hafter.symm.trans heval')
    omega
  · intro hle
    exact ⟨before, after, hbefore, hafter, by omega⟩

/-- A new rule never makes the rules for executables less strict. -/
theorem hostStrictness_le_addPrefixRule {decision : Decision}
    (h : policy.addPrefixRule amendment decision = .ok amended) :
    policy.hostStrictness environment cmd ≤ amended.hostStrictness environment cmd := by
  have hlists : amended.listsExecutable = policy.listsExecutable := by
    funext program basename
    rw [listsExecutable, listsExecutable, hostExecutablesByName_addPrefixRule h]
  rw [hostStrictness_eq, hostStrictness_eq, hlists]
  cases resolveProgram environment cmd with
  | none => exact le_rfl
  | some resolved =>
    dsimp only
    split
    · rw [exactStrictness_addPrefixRule h]
      exact Nat.le_max_left _ _
    · exact le_rfl

/-- An allowing rule weakens the decision of a rule only where it begins the command, no
exact rule matches and a rule for the name of the executable does not allow. -/
theorem keepsDecision_addPrefixRule_iff (h : policy.addPrefixRule amendment .allow = .ok amended)
    (hmatch : policy.matchedRules environment cmd resolving ≠ []) :
    KeepsDecision policy amended environment cmd heuristicsFallback ↔
      ¬ (amendment <+: cmd ∧ policy.matchExactRules cmd = [] ∧
        ∃ ruleMatch ∈ policy.matchHostExecutableRules environment cmd,
          ruleMatch.decision ≠ .allow) := by
  have hexact := exactStrictness_addPrefixRule h cmd
  have hhost := @hostStrictness_le_addPrefixRule environment _ _ _ cmd _ h
  have hstrict := @strictness_matchedRules policy environment cmd resolving
  have hstrict' := @strictness_matchedRules amended environment cmd resolving
  have hpositive := mt strictness_eq_zero_iff.mp hmatch
  have hdenies : (∃ ruleMatch ∈ policy.matchHostExecutableRules environment cmd,
      ruleMatch.decision ≠ .allow) ↔ 1 < policy.hostStrictness environment cmd := by
    rw [← not_le, hostStrictness, strictness_le_one_iff]
    push Not
    rfl
  change _ = if _ then _ else if true then _ else _ at hstrict hstrict'
  rw [hdenies, ← exactStrictness_eq_zero_iff]
  have hpositive' : strictness (amended.matchedRules environment cmd resolving) ≠ 0 := by
    rw [hstrict] at hpositive
    rw [hstrict']
    split_ifs at hpositive ⊢ <;> omega
  rw [keepsDecision_iff hmatch (mt strictness_eq_zero_iff.mpr hpositive'), hstrict, hstrict',
    hexact]
  by_cases hpre : amendment <+: cmd
  · by_cases hzero : policy.exactStrictness cmd = 0
    · simp [hzero, hpre, Decision.severity]
    · simp [hzero]
  · by_cases hzero : policy.exactStrictness cmd = 0
    · simpa [hzero, hpre] using hhost
    · simp [hzero]

end Amended

/-- A proposed amendment comes from the request, and accepting it keeps every decision
that a rule makes for a command, unless the amendment begins the command, no exact rule
matches it and a rule for the name of its executable asks or forbids. -/
theorem accepted_amendment_keeps_decision_iff
    {tools : ShellTools} {environment : Environment} {policy : Policy}
    {request : ExecApprovalRequest} {parsed : ExecPolicyCommands}
    {commandPlatform : DangerousCommandPlatform} {requirement : ExecApprovalRequirement}
    {amendment : List Text}
    (hrequirement : tools.createExecApprovalRequirementForParsedCommands environment policy
      request parsed commandPlatform = some requirement)
    (hproposed : requirement.proposedExecpolicyAmendment = some amendment) :
    (request.prefixRule = some amendment ∨
      amendment ∈ parsed.commands ∧ (policy.currentForEnvironment request.environmentPolicy
          request.allowPrefixRules).matchedRules environment amendment resolving = []) ∧
    ∀ amended, policy.addPrefixRule amendment .allow = .ok amended →
      ∀ environment cmd heuristicsFallback,
        policy.matchedRules environment cmd resolving ≠ [] →
        (KeepsDecision policy amended environment cmd heuristicsFallback ↔
          ¬ (amendment <+: cmd ∧ policy.matchExactRules cmd = [] ∧
            ∃ ruleMatch ∈ policy.matchHostExecutableRules environment cmd,
              ruleMatch.decision ≠ .allow)) := by
  refine ⟨origin_of_proposed hrequirement hproposed, ?_⟩
  intro amended hamended environment cmd heuristicsFallback hmatch
  exact keepsDecision_addPrefixRule_iff hamended hmatch

/-- Tools that take no script apart and find nothing safe or dangerous. -/
def plainTools : ShellTools where
  parseShellLcPlainCommands _ := none
  parsePowershellCommandIntoPlainCommands _ := none
  dangerousCommandMatchForPlatform _ _ := none
  dangerousPowershellWordsMatch _ _ := none
  tryJoin args := some (List.intercalate [' '] args)
  cfgWindows := false

def forbidsPush : Policy := ⟨[prefixRule ["git", "push"] .forbidden], [], []⟩

def gitPath : List Text := ["/usr/bin/git".toList]

def gitPathPush : List Text := gitPath ++ ["push".toList]

/-- A command in a project that is not trusted, with a rule for the program by its path. -/
def gitStatusRequest : ExecApprovalRequest :=
  ⟨gitStatus, .unlessTrusted, .disabled, none, .disabled, .useDefault, some gitPath, .honor⟩

def allowsGitPathOnly : Policy :=
  { forbidsPush with
    rulesByProgram := forbidsPush.rulesByProgram ++ [prefixRule ["/usr/bin/git"] .allow] }

theorem gitPath_is_proposed :
    plainTools.createExecApprovalRequirementForParsedCommands rootEnvironment forbidsPush
      gitStatusRequest ⟨[gitStatus], .generic⟩ .posix =
        some (.needsApproval none (some gitPath)) := by
  decide +kernel

theorem addPrefixRule_gitPath :
    forbidsPush.addPrefixRule gitPath .allow = .ok allowsGitPathOnly := by
  decide +kernel

/-- After the proposal is accepted, pushing by name is forbidden as before. -/
theorem push_by_name_stays_forbidden :
    KeepsDecision forbidsPush allowsGitPathOnly rootEnvironment
      ["git".toList, "push".toList] (fun _ => .prompt) := by
  refine ((accepted_amendment_keeps_decision_iff gitPath_is_proposed rfl).2 _
    addPrefixRule_gitPath _ _ _ (by decide +kernel)).mpr ?_
  decide +kernel

/-- Pushing by path is allowed once the proposal is accepted. -/
theorem accepted_amendment_weakens_rule :
    plainTools.createExecApprovalRequirementForCommandPlatform rootEnvironment forbidsPush
        gitStatusRequest .posix = some (.needsApproval none (some gitPath)) ∧
      forbidsPush.addPrefixRule gitPath .allow = .ok allowsGitPathOnly ∧
      forbidsPush.matchedRules rootEnvironment gitPathPush resolving ≠ [] ∧
      (forbidsPush.checkWithOptions rootEnvironment gitPathPush (fun _ => .prompt)
        resolving).map (·.decision) = some .forbidden ∧
      (allowsGitPathOnly.checkWithOptions rootEnvironment gitPathPush (fun _ => .prompt)
        resolving).map (·.decision) = some .allow ∧
      ¬ KeepsDecision forbidsPush allowsGitPathOnly rootEnvironment gitPathPush
        (fun _ => .prompt) := by
  refine ⟨by decide +kernel, addPrefixRule_gitPath, by decide +kernel, by decide +kernel,
    by decide +kernel, ?_⟩
  rw [keepsDecision_addPrefixRule_iff addPrefixRule_gitPath (by decide +kernel)]
  decide +kernel

end Rexux.ExecPolicy
