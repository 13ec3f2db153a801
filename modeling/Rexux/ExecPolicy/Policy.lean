import Rexux.Foundation.MostSpecific
import Rexux.Path.AbsolutePath

/-!
# Execution policies

Rules are found by the first token of a command.  Only if no rule for that token
matches, the token may be resolved to a path of the host, and rules for the name of
the executable are tried; a table of host executables limits the paths for which
this is done.  The decision is the strictest of the matching rules.

Policies are merged by concatenating their rules and overriding the table.  A
forbidding rule for the first token itself survives every merge.  One that is
reached through the name of the executable does so unless the other policy has a
rule for the path or a table without it
(`decision_mergeOverlay_eq_forbidden_iff`).
-/

namespace Rexux.ExecPolicy

open Foundation Rexux.Path List

/-- The decisions, from the weakest to the strictest. -/
inductive Decision where
  | allow
  | prompt
  | forbidden
  deriving DecidableEq, Repr

def Decision.severity : Decision → ℕ
  | .allow => 0
  | .prompt => 1
  | .forbidden => 2

/-- One word of a pattern, or one of several. -/
inductive PatternToken where
  | single (expected : Text)
  | alts (alternatives : List Text)
  deriving DecidableEq, Repr

def PatternToken.isMatch : PatternToken → Text → Bool
  | .single expected, token => expected = token
  | .alts alternatives, token => alternatives.contains token

/-- A pattern for the first words of a command. -/
structure PrefixPattern where
  first : Text
  rest : List PatternToken
  deriving DecidableEq, Repr

/-- The words that the pattern has matched. -/
def PrefixPattern.matchesPrefix (pattern : PrefixPattern) (cmd : List Text) : Option (List Text) :=
  let length := pattern.rest.length + 1
  if cmd.length < length || cmd.head? != some pattern.first then none
  else if (pattern.rest.zip ((cmd.take length).drop 1)).all fun pair =>
      pair.1.isMatch pair.2 then some (cmd.take length)
  else none

/-- Why a decision was made. -/
inductive RuleMatch where
  | prefixRuleMatch (matchedPrefix : List Text) (decision : Decision)
      (resolvedProgram : Option AbsolutePath) (justification : Option Text)
  | heuristicsRuleMatch (command : List Text) (decision : Decision)
  deriving DecidableEq, Repr

namespace RuleMatch

def decision : RuleMatch → Decision
  | .prefixRuleMatch _ decision _ _ => decision
  | .heuristicsRuleMatch _ decision => decision

def isHeuristics : RuleMatch → Bool
  | .prefixRuleMatch _ _ _ _ => false
  | .heuristicsRuleMatch _ _ => true

def withResolvedProgram (ruleMatch : RuleMatch) (program : AbsolutePath) : RuleMatch :=
  match ruleMatch with
  | .prefixRuleMatch matchedPrefix decision _ justification =>
    .prefixRuleMatch matchedPrefix decision (some program) justification
  | other => other

@[simp] theorem decision_withResolvedProgram (ruleMatch : RuleMatch) (program : AbsolutePath) :
    (ruleMatch.withResolvedProgram program).decision = ruleMatch.decision := by
  cases ruleMatch <;> rfl

@[simp] theorem isHeuristics_withResolvedProgram (ruleMatch : RuleMatch) (program : AbsolutePath) :
    (ruleMatch.withResolvedProgram program).isHeuristics = ruleMatch.isHeuristics := by
  cases ruleMatch <;> rfl

end RuleMatch

/-- A rule for the commands that begin with a pattern. -/
structure PrefixRule where
  pattern : PrefixPattern
  decision : Decision
  justification : Option Text
  deriving DecidableEq, Repr

def PrefixRule.matches (rule : PrefixRule) (cmd : List Text) : Option RuleMatch :=
  (rule.pattern.matchesPrefix cmd).map fun matchedPrefix =>
    .prefixRuleMatch matchedPrefix rule.decision none rule.justification

inductive NetworkRuleProtocol where
  | http
  | https
  | socks5Tcp
  | socks5Udp
  deriving DecidableEq, Repr

/-- A rule for a host. -/
structure NetworkRule where
  host : Text
  protocol : NetworkRuleProtocol
  decision : Decision
  justification : Option Text
  deriving DecidableEq, Repr

/-- Rules in the order in which they were inserted, and the table of host executables
with the newest entry first. -/
structure Policy where
  rulesByProgram : List (Text × PrefixRule)
  networkRules : List NetworkRule
  hostExecutablesByName : List (Text × List AbsolutePath)
  deriving DecidableEq, Repr

open Policy

structure MatchOptions where
  resolveHostExecutables : Bool
  deriving DecidableEq, Repr

structure Environment where
  homeDir : Option AbsolutePath
  currentDir : Option AbsolutePath

/-- `AbsolutePathBuf::try_from`, which needs the working directory only for relative
paths. -/
def Environment.absolutePath (environment : Environment) (text : Text) : Option AbsolutePath :=
  let isRelative := text.head? != some '/' &&
    !(environment.homeDir.isSome && (text = ['~'] || text.take 2 = ['~', '/']))
  match environment.currentDir, isRelative with
  | none, true => none
  | none, false => some (AbsolutePath.resolvePathAgainstBase environment.homeDir text .root)
  | some directory, _ =>
    some (AbsolutePath.resolvePathAgainstBase environment.homeDir text directory)

/-- The name of the last component, if it is valid text. -/
def executablePathLookupKey (path : AbsolutePath) : Option Text :=
  path.components.getLast?.bind fun name =>
    if utf8Bytes (fromUtf8Lossy name) = name then some (fromUtf8Lossy name) else none

/-- The strictest decision and everything that matched. -/
structure Evaluation where
  decision : Decision
  matchedRules : List RuleMatch
  deriving DecidableEq, Repr

open Evaluation

namespace Policy

variable (policy : Policy) (environment : Environment) (cmd : List Text)

/-- The rules that are listed under a program. -/
def rulesFor (program : Text) : List PrefixRule :=
  (policy.rulesByProgram.filter (·.1 = program)).map Prod.snd

/-- A second policy on top of this one. -/
def mergeOverlay (overlay : Policy) : Policy where
  rulesByProgram := policy.rulesByProgram ++ overlay.rulesByProgram
  networkRules := policy.networkRules ++ overlay.networkRules
  hostExecutablesByName := overlay.hostExecutablesByName ++ policy.hostExecutablesByName

/-- The rules for the first word as it stands. -/
def matchExactRules : List RuleMatch :=
  match cmd with
  | [] => []
  | first :: _ => (policy.rulesFor first).filterMap (·.matches cmd)

/-- The program as an absolute path, and its last component. -/
def resolveProgram : Option (AbsolutePath × Text) :=
  match cmd with
  | [] => none
  | first :: _ =>
    (environment.absolutePath first).bind fun program =>
      (executablePathLookupKey program).map fun basename => (program, basename)

/-- The table lists the program, or has no entry for its name. -/
def listsExecutable (program : AbsolutePath) (basename : Text) : Bool :=
  match policy.hostExecutablesByName.lookup basename with
  | none => true
  | some paths => paths.contains program

def matchBasenameRules (program : AbsolutePath) (basename : Text) : List RuleMatch :=
  ((policy.rulesFor basename).filterMap (·.matches (basename :: cmd.drop 1))).map
    (·.withResolvedProgram program)

/-- The rules for the name of the program, if its path is one of those listed for the name. -/
def matchHostExecutableRules : List RuleMatch :=
  match resolveProgram environment cmd with
  | none => []
  | some (program, basename) =>
    if (policy.rulesFor basename).isEmpty then []
    else if !policy.listsExecutable program basename then []
    else policy.matchBasenameRules cmd program basename

/-- Exact rules come first; only without them the program's name is looked up. -/
def matchedRules (options : MatchOptions) : List RuleMatch :=
  let exact := policy.matchExactRules cmd
  if !exact.isEmpty then exact
  else if options.resolveHostExecutables then
    policy.matchHostExecutableRules environment cmd
  else []

/-- The matches, or the heuristics if there are none. -/
def matchesForCommandWithOptions (heuristicsFallback : Option (List Text → Decision))
    (options : MatchOptions) : List RuleMatch :=
  let matched := policy.matchedRules environment cmd options
  match matched.isEmpty, heuristicsFallback with
  | true, some fallback => [.heuristicsRuleMatch cmd (fallback cmd)]
  | _, _ => matched

end Policy

namespace Evaluation

def isMatch (evaluation : Evaluation) : Bool :=
  evaluation.matchedRules.any fun ruleMatch => !ruleMatch.isHeuristics

/-- `none` where the source panics, for an empty list. -/
def fromMatches (matchedRules : List RuleMatch) : Option Evaluation :=
  (maxByKey Decision.severity (matchedRules.map RuleMatch.decision)).map
    fun decision => ⟨decision, matchedRules⟩

end Evaluation

def Policy.checkWithOptions (policy : Policy) (environment : Environment)
    (cmd : List Text) (heuristicsFallback : List Text → Decision)
    (options : MatchOptions) : Option Evaluation :=
  fromMatches
    (policy.matchesForCommandWithOptions environment cmd (some heuristicsFallback) options)

/-! ## Decisions -/

/-- The evaluation takes the strictest of the matches. -/
theorem Evaluation.fromMatches_spec {matchedRules : List RuleMatch} (h : matchedRules ≠ []) :
    ∃ evaluation, fromMatches matchedRules = some evaluation ∧
      evaluation.matchedRules = matchedRules ∧
      (evaluation.decision = .forbidden ↔
        ∃ ruleMatch ∈ matchedRules, ruleMatch.decision = .forbidden) := by
  unfold fromMatches
  cases hmax : maxByKey Decision.severity (matchedRules.map RuleMatch.decision) with
  | none =>
    rw [maxByKey_eq_none_iff, map_eq_nil_iff] at hmax
    exact absurd hmax h
  | some decision =>
    obtain ⟨hmem, hgreatest⟩ := maxByKey_spec hmax
    refine ⟨⟨decision, matchedRules⟩, rfl, rfl, ?_⟩
    constructor
    · rintro rfl
      exact mem_map.mp hmem
    · rintro ⟨ruleMatch, hmatch, hforbidden⟩
      have hle := hgreatest _ (mem_map_of_mem hmatch)
      rw [hforbidden] at hle
      cases decision with
      | forbidden => rfl
      | allow | prompt => exact absurd hle (by decide)

section Merge

variable {policy overlay : Policy} {environment : Environment} {cmd : List Text}
  {heuristicsFallback : List Text → Decision} {options : MatchOptions} {ruleMatch : RuleMatch}

theorem isHeuristics_of_mem_matches {rules : List PrefixRule}
    (h : ruleMatch ∈ rules.filterMap (·.matches cmd)) : ruleMatch.isHeuristics = false := by
  obtain ⟨rule, -, hmatch⟩ := mem_filterMap.mp h
  obtain ⟨matchedPrefix, -, rfl⟩ := Option.map_eq_some_iff.mp hmatch
  rfl

theorem isHeuristics_of_mem_matchedRules
    (h : ruleMatch ∈ policy.matchedRules environment cmd options) :
    ruleMatch.isHeuristics = false := by
  unfold Policy.matchedRules at h
  dsimp only at h
  split at h
  · cases cmd with
    | nil => cases h
    | cons first rest => exact isHeuristics_of_mem_matches h
  · split at h
    · unfold matchHostExecutableRules at h
      split at h
      · cases h
      · split at h
        · cases h
        · split at h
          · cases h
          · obtain ⟨basenameMatch, hmatch, rfl⟩ := mem_map.mp h
            rw [RuleMatch.isHeuristics_withResolvedProgram]
            exact isHeuristics_of_mem_matches hmatch
    · cases h

variable (policy environment cmd options) in
/-- A rule forbids the command. -/
def Policy.Forbids : Prop :=
  ∃ ruleMatch ∈ policy.matchedRules environment cmd options, ruleMatch.decision = .forbidden

/-- A check always evaluates; the heuristics decide only where no rule matches. -/
theorem Policy.checkWithOptions_spec :
    ∃ evaluation,
      policy.checkWithOptions environment cmd heuristicsFallback options = some evaluation ∧
      (evaluation.isMatch ↔ policy.matchedRules environment cmd options ≠ []) ∧
      (evaluation.decision = .forbidden ↔
        policy.Forbids environment cmd options ∨
          policy.matchedRules environment cmd options = [] ∧
            heuristicsFallback cmd = .forbidden) := by
  unfold checkWithOptions matchesForCommandWithOptions Policy.Forbids
  cases hmatched : policy.matchedRules environment cmd options with
  | nil =>
    obtain ⟨evaluation, heval, hrules, hdecision⟩ := @fromMatches_spec
      [.heuristicsRuleMatch cmd (heuristicsFallback cmd)] (by simp)
    refine ⟨evaluation, heval, ?_, ?_⟩
    · simp [isMatch, hrules, RuleMatch.isHeuristics]
    · rw [hdecision]
      simp [RuleMatch.decision]
  | cons ruleMatch rest =>
    obtain ⟨evaluation, heval, hrules, hdecision⟩ := @fromMatches_spec (ruleMatch :: rest) (by simp)
    have hpolicy : ruleMatch.isHeuristics = false :=
      isHeuristics_of_mem_matchedRules (hmatched ▸ mem_cons_self)
    refine ⟨evaluation, heval, ?_, ?_⟩
    · simp [isMatch, hrules, hpolicy]
    · rw [hdecision]
      simp

/-- The rules of the overlay come behind those of the policy. -/
theorem Policy.rulesFor_mergeOverlay (program : Text) :
    (policy.mergeOverlay overlay).rulesFor program =
      policy.rulesFor program ++ overlay.rulesFor program := by
  simp [rulesFor, mergeOverlay]

theorem Policy.matchExactRules_mergeOverlay :
    (policy.mergeOverlay overlay).matchExactRules cmd =
      policy.matchExactRules cmd ++ overlay.matchExactRules cmd := by
  cases cmd with
  | nil => rfl
  | cons first rest => simp [matchExactRules, rulesFor_mergeOverlay]

theorem Policy.matchBasenameRules_mergeOverlay (program : AbsolutePath) (basename : Text) :
    (policy.mergeOverlay overlay).matchBasenameRules cmd program basename =
      policy.matchBasenameRules cmd program basename ++
        overlay.matchBasenameRules cmd program basename := by
  simp [matchBasenameRules, rulesFor_mergeOverlay]

/-- The executables of the overlay replace those of the policy, name by name. -/
theorem Policy.lookup_mergeOverlay (name : Text) :
    (policy.mergeOverlay overlay).hostExecutablesByName.lookup name =
      (overlay.hostExecutablesByName.lookup name).or
        (policy.hostExecutablesByName.lookup name) := by
  rw [mergeOverlay, lookup_append]

theorem Policy.mem_matchHostExecutableRules :
    ruleMatch ∈ policy.matchHostExecutableRules environment cmd ↔
      ∃ program basename, resolveProgram environment cmd = some (program, basename) ∧
        policy.listsExecutable program basename ∧
        ruleMatch ∈ policy.matchBasenameRules cmd program basename := by
  unfold matchHostExecutableRules
  cases hprogram : resolveProgram environment cmd with
  | none => simp
  | some resolved =>
    obtain ⟨program, basename⟩ := resolved
    simp only [Option.some.injEq, Prod.mk.injEq]
    constructor
    · intro h
      split at h
      · cases h
      · split at h
        · cases h
        next hlists => exact ⟨program, basename, ⟨rfl, rfl⟩, by simpa using hlists, h⟩
    · rintro ⟨_, _, ⟨rfl, rfl⟩, hlists, hmatch⟩
      have hrules : (policy.rulesFor basename).isEmpty = false := by
        rw [Bool.eq_false_iff]
        intro hempty
        rw [List.isEmpty_iff] at hempty
        simp [matchBasenameRules, hempty] at hmatch
      simpa [hrules, hlists] using hmatch

/-- A policy forbids by an exact rule, or by a rule for the name of the executable if
no exact rule matches. -/
theorem Policy.forbids_iff :
    policy.Forbids environment cmd options ↔
      (∃ ruleMatch ∈ policy.matchExactRules cmd, ruleMatch.decision = .forbidden) ∨
        policy.matchExactRules cmd = [] ∧ options.resolveHostExecutables ∧
          ∃ ruleMatch ∈ policy.matchHostExecutableRules environment cmd,
            ruleMatch.decision = .forbidden := by
  unfold Policy.Forbids Policy.matchedRules
  cases hexact : policy.matchExactRules cmd with
  | nil => by_cases hresolve : options.resolveHostExecutables = true <;> simp [hresolve]
  | cons ruleMatch rest => simp

variable (policy overlay environment cmd) in
/-- In the merged policy the program is on the list for its name, if there is such a list. -/
def Policy.MergeLists : Prop :=
  ∃ program basename, resolveProgram environment cmd = some (program, basename) ∧
    ∀ paths, (overlay.hostExecutablesByName.lookup basename).or
      (policy.hostExecutablesByName.lookup basename) = some paths → program ∈ paths

theorem Policy.listsExecutable_iff (program : AbsolutePath) (basename : Text) :
    policy.listsExecutable program basename ↔
      ∀ paths, policy.hostExecutablesByName.lookup basename = some paths → program ∈ paths := by
  unfold listsExecutable
  cases hlookup : policy.hostExecutablesByName.lookup basename with
  | none | some => simp

/-- A rule for executables matches in the merge only where the merged lists allow it. -/
theorem Policy.mem_matchHostExecutableRules_mergeOverlay :
    ruleMatch ∈ (policy.mergeOverlay overlay).matchHostExecutableRules environment cmd ↔
      policy.MergeLists overlay environment cmd ∧
        ∃ program basename, resolveProgram environment cmd = some (program, basename) ∧
          (ruleMatch ∈ policy.matchBasenameRules cmd program basename ∨
            ruleMatch ∈ overlay.matchBasenameRules cmd program basename) := by
  rw [mem_matchHostExecutableRules]
  constructor
  · rintro ⟨program, basename, hprogram, hlists, hmatch⟩
    rw [listsExecutable_iff, lookup_mergeOverlay] at hlists
    rw [matchBasenameRules_mergeOverlay, mem_append] at hmatch
    exact ⟨⟨program, basename, hprogram, hlists⟩, program, basename, hprogram, hmatch⟩
  · rintro ⟨⟨program, basename, hprogram, hlists⟩, _, _, hprogram', hmatch⟩
    obtain ⟨rfl, rfl⟩ := Prod.mk.inj (Option.some.inj (hprogram.symm.trans hprogram'))
    refine ⟨program, basename, hprogram, ?_, ?_⟩
    · rwa [listsExecutable_iff, lookup_mergeOverlay]
    · rwa [matchBasenameRules_mergeOverlay, mem_append]

/-- What one side forbids is forbidden by the merge exactly if the rule still applies there. -/
theorem Policy.forbids_mergeOverlay_iff
    (h : policy.Forbids environment cmd options ∨ overlay.Forbids environment cmd options) :
    (policy.mergeOverlay overlay).Forbids environment cmd options ↔
      (∃ ruleMatch ∈ policy.matchExactRules cmd ++ overlay.matchExactRules cmd,
          ruleMatch.decision = .forbidden) ∨
        policy.matchExactRules cmd ++ overlay.matchExactRules cmd = [] ∧
          policy.MergeLists overlay environment cmd := by
  rw [forbids_iff, matchExactRules_mergeOverlay]
  refine or_congr_right (and_congr_right fun hexact => ?_)
  rw [append_eq_nil_iff] at hexact
  -- Without exact matches, one of the policies forbids by the name of the executable.
  obtain ⟨hresolve, ruleMatch, program, basename, hprogram, hmatch, hforbidden⟩ :
      options.resolveHostExecutables ∧ ∃ ruleMatch program basename,
        resolveProgram environment cmd = some (program, basename) ∧
        (ruleMatch ∈ policy.matchBasenameRules cmd program basename ∨
          ruleMatch ∈ overlay.matchBasenameRules cmd program basename) ∧
        ruleMatch.decision = .forbidden := by
    rcases h with hbase | hoverlay
    · rcases forbids_iff.mp hbase with ⟨_, hmem, -⟩ | ⟨-, hresolve, m, hmem, hm⟩
      · rw [hexact.1] at hmem
        cases hmem
      · obtain ⟨program, basename, hprogram, -, hmatch⟩ := mem_matchHostExecutableRules.mp hmem
        exact ⟨hresolve, m, program, basename, hprogram, .inl hmatch, hm⟩
    · rcases forbids_iff.mp hoverlay with ⟨_, hmem, -⟩ | ⟨-, hresolve, m, hmem, hm⟩
      · rw [hexact.2] at hmem
        cases hmem
      · obtain ⟨program, basename, hprogram, -, hmatch⟩ := mem_matchHostExecutableRules.mp hmem
        exact ⟨hresolve, m, program, basename, hprogram, .inr hmatch, hm⟩
  constructor
  · rintro ⟨-, m, hmem, -⟩
    exact (mem_matchHostExecutableRules_mergeOverlay.mp hmem).1
  · intro hlists
    exact ⟨hresolve, ruleMatch, mem_matchHostExecutableRules_mergeOverlay.mpr
      ⟨hlists, program, basename, hprogram, hmatch⟩, hforbidden⟩

theorem Policy.matchedRules_eq_nil_iff :
    policy.matchedRules environment cmd options = [] ↔
      policy.matchExactRules cmd = [] ∧ (options.resolveHostExecutables →
        policy.matchHostExecutableRules environment cmd = []) := by
  unfold Policy.matchedRules
  cases hexact : policy.matchExactRules cmd with
  | nil => by_cases hresolve : options.resolveHostExecutables = true <;> simp
  | cons ruleMatch rest => simp

variable (policy environment cmd heuristicsFallback options) in
def Policy.EvaluatesToForbidden : Prop :=
  ∃ evaluation,
    policy.checkWithOptions environment cmd heuristicsFallback options = some evaluation ∧
    evaluation.decision = .forbidden ∧ evaluation.isMatch = true

theorem Policy.EvaluatesToForbidden.forbids
    (h : policy.EvaluatesToForbidden environment cmd heuristicsFallback options) :
    policy.Forbids environment cmd options := by
  obtain ⟨evaluation, heval, hdecision, hmatch⟩ := h
  obtain ⟨other, hother, hpolicy, hforbidden⟩ :=
    @checkWithOptions_spec policy environment cmd heuristicsFallback options
  obtain rfl := Option.some.inj (heval.symm.trans hother)
  rcases hforbidden.mp hdecision with h | ⟨hnone, -⟩
  · exact h
  · exact absurd hnone (hpolicy.mp hmatch)

/-- A forbidden command stays forbidden in a merge if an exact rule forbids it, or if
no exact rule matches and the table of the merge lists its program. -/
theorem decision_mergeOverlay_eq_forbidden_iff
    (h : policy.EvaluatesToForbidden environment cmd heuristicsFallback options ∨
      overlay.EvaluatesToForbidden environment cmd heuristicsFallback options) :
    (∃ evaluation, (policy.mergeOverlay overlay).checkWithOptions environment cmd
        heuristicsFallback options = some evaluation ∧ evaluation.decision = .forbidden) ↔
      (∃ ruleMatch ∈ policy.matchExactRules cmd ++ overlay.matchExactRules cmd,
          ruleMatch.decision = .forbidden) ∨
        policy.matchExactRules cmd ++ overlay.matchExactRules cmd = [] ∧
          (policy.MergeLists overlay environment cmd ∨ heuristicsFallback cmd = .forbidden) := by
  have hforbids := forbids_mergeOverlay_iff
    (h.imp Policy.EvaluatesToForbidden.forbids Policy.EvaluatesToForbidden.forbids)
  obtain ⟨evaluation, heval, -, hdecision⟩ := @checkWithOptions_spec
    (policy.mergeOverlay overlay) environment cmd heuristicsFallback options
  have hmerged : (∃ evaluation, (policy.mergeOverlay overlay).checkWithOptions environment cmd
      heuristicsFallback options = some evaluation ∧ evaluation.decision = .forbidden) ↔
        evaluation.decision = .forbidden := by
    simp [heval]
  rw [hmerged, hdecision, hforbids, matchedRules_eq_nil_iff, matchExactRules_mergeOverlay]
  constructor
  · rintro ((hexact | ⟨hnone, hlists⟩) | ⟨⟨hnone, -⟩, hfallback⟩)
    · exact .inl hexact
    · exact .inr ⟨hnone, .inl hlists⟩
    · exact .inr ⟨hnone, .inr hfallback⟩
  · rintro (hexact | ⟨hnone, hlists | hfallback⟩)
    · exact .inl (.inl hexact)
    · exact .inl (.inr ⟨hnone, hlists⟩)
    · by_cases hlists : policy.MergeLists overlay environment cmd
      · exact .inl (.inr ⟨hnone, hlists⟩)
      · refine .inr ⟨⟨hnone, fun _ => eq_nil_iff_forall_not_mem.mpr ?_⟩, hfallback⟩
        intro ruleMatch hmem
        exact hlists (mem_matchHostExecutableRules_mergeOverlay.mp hmem).1

end Merge

def prefixRule (tokens : List String) (decision : Decision) : Text × PrefixRule :=
  ((tokens.headD "").toList,
    ⟨⟨(tokens.headD "").toList, tokens.tail.map fun token => .single token.toList⟩, decision, none⟩)

def forbidsGit : Policy := ⟨[prefixRule ["git"] .forbidden], [], []⟩

def allowsLs : Policy := ⟨[prefixRule ["ls"] .allow], [], []⟩

def allowsGitPath : Policy := ⟨[prefixRule ["/usr/bin/git"] .allow], [], []⟩

def gitStatus : List Text := ["/usr/bin/git".toList, "status".toList]

def rootEnvironment : Environment := ⟨none, some .root⟩

def resolving : MatchOptions := ⟨true⟩

theorem forbidsGit_forbids :
    forbidsGit.EvaluatesToForbidden rootEnvironment gitStatus (fun _ => .allow) resolving :=
  ⟨_, rfl, by decide +kernel, by decide +kernel⟩

/-- The rule for `git` survives a merge with an unrelated policy. -/
theorem forbidsGit_survives_allowsLs :
    ∃ evaluation, (forbidsGit.mergeOverlay allowsLs).checkWithOptions rootEnvironment
      gitStatus (fun _ => .allow) resolving = some evaluation ∧
        evaluation.decision = .forbidden := by
  refine (decision_mergeOverlay_eq_forbidden_iff (.inl forbidsGit_forbids)).mpr
    (.inr ⟨by decide +kernel, .inl ⟨AbsolutePath.root.append (utf8Bytes "usr/bin/git".toList),
      "git".toList, by decide +kernel, ?_⟩⟩)
  intro paths hpaths
  cases hpaths

/-- A rule for the path takes the place of the rule for the name. -/
theorem forbidden_rule_shadowed_by_merge :
    forbidsGit.EvaluatesToForbidden rootEnvironment gitStatus (fun _ => .allow) resolving ∧
      ((forbidsGit.mergeOverlay allowsGitPath).checkWithOptions rootEnvironment gitStatus
        (fun _ => .allow) resolving).map (·.decision) = some .allow ∧
      ((allowsGitPath.mergeOverlay forbidsGit).checkWithOptions rootEnvironment gitStatus
        (fun _ => .allow) resolving).map (·.decision) = some .allow :=
  ⟨forbidsGit_forbids, by decide +kernel, by decide +kernel⟩

end Rexux.ExecPolicy
