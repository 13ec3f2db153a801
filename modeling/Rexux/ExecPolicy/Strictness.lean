import Rexux.ExecPolicy.Policy

/-!
# How strict a policy is

The decision for a command is the strictest of the rules that match it, so the rules
found by the first token matter only through one number: zero if none matches, and one
more than the severity of the strictest otherwise.  Rules for the name of an executable
are the rules found for the command with that name in the first place, so this number
for every command decides what happens to all of them
(`Policy.sameDecisions_iff`).  A prefix rule raises it below the prefix and nowhere else
(`Policy.exactStrictness_addPrefixRule`).
-/

namespace Rexux.ExecPolicy

open Foundation Rexux.Path List Decision

theorem Decision.severity_injective : Function.Injective severity := by
  intro decision other h
  cases decision <;> cases other <;> first | rfl | cases h

/-- Zero without a match, and one more than the highest severity otherwise. -/
def strictness : List RuleMatch → ℕ
  | [] => 0
  | ruleMatch :: rest => max (ruleMatch.decision.severity + 1) (strictness rest)

@[simp] theorem strictness_nil : strictness [] = 0 := rfl

theorem strictness_append (matched rest : List RuleMatch) :
    strictness (matched ++ rest) = max (strictness matched) (strictness rest) := by
  induction matched with
  | nil => simp
  | cons ruleMatch matched ih => rw [cons_append, strictness, strictness, ih, Nat.max_assoc]

variable {matched : List RuleMatch}

theorem strictness_eq_zero_iff : strictness matched = 0 ↔ matched = [] := by
  cases matched with
  | nil => simp
  | cons ruleMatch matched => simp [strictness]

theorem severity_lt_strictness {ruleMatch : RuleMatch}
    (h : ruleMatch ∈ matched) : ruleMatch.decision.severity < strictness matched := by
  induction matched with
  | nil => cases h
  | cons first matched ih =>
    rw [strictness]
    rcases mem_cons.mp h with rfl | hmem
    · omega
    · have hlt := ih hmem
      omega

theorem exists_severity_of_strictness (h : matched ≠ []) :
    ∃ ruleMatch ∈ matched, ruleMatch.decision.severity + 1 = strictness matched := by
  induction matched with
  | nil => exact absurd rfl h
  | cons first matched ih =>
    by_cases hle : strictness matched ≤ first.decision.severity + 1
    · exact ⟨first, mem_cons_self, (Nat.max_eq_left hle).symm⟩
    · have hne : matched ≠ [] := by
        rintro rfl
        simp at hle
      obtain ⟨ruleMatch, hmem, hstrict⟩ := ih hne
      refine ⟨ruleMatch, mem_cons_of_mem _ hmem, ?_⟩
      rw [strictness]
      omega

theorem strictness_map_withResolvedProgram (matched : List RuleMatch) (program : AbsolutePath) :
    strictness (matched.map (·.withResolvedProgram program)) = strictness matched := by
  induction matched with
  | nil => rfl
  | cons ruleMatch matched ih =>
    rw [map_cons, strictness, strictness, ih, RuleMatch.decision_withResolvedProgram]

theorem strictness_le_one_iff :
    strictness matched ≤ 1 ↔ ∀ ruleMatch ∈ matched, ruleMatch.decision = .allow := by
  constructor
  · intro hle ruleMatch hmem
    have hlt := severity_lt_strictness hmem
    apply severity_injective
    change _ = 0
    omega
  · intro hallow
    by_cases hne : matched = []
    · simp [hne]
    · obtain ⟨ruleMatch, hmem, hstrict⟩ := exists_severity_of_strictness hne
      rw [hallow ruleMatch hmem] at hstrict
      exact hstrict.symm.le

theorem Evaluation.severity_of_fromMatches
    {evaluation : Evaluation} (h : fromMatches matched = some evaluation) :
    evaluation.decision.severity + 1 = strictness matched := by
  obtain ⟨decision, hmax, rfl⟩ := Option.map_eq_some_iff.mp h
  obtain ⟨hmem, hgreatest⟩ := maxByKey_spec hmax
  obtain ⟨ruleMatch, hmatch, rfl⟩ := mem_map.mp hmem
  have hlt := severity_lt_strictness hmatch
  obtain ⟨strictest, hstrictest, hstrict⟩ := exists_severity_of_strictness (ne_nil_of_mem hmatch)
  have hle := hgreatest _ (mem_map_of_mem hstrictest)
  change ruleMatch.decision.severity + 1 = strictness matched
  omega

namespace Policy

/-- How strict the exact rules are about a command, zero without a match. -/
def exactStrictness (policy : Policy) (cmd : List Text) : ℕ :=
  strictness (policy.matchExactRules cmd)

/-- How strict the rules for the program's name are. -/
def hostStrictness (policy : Policy) (environment : Environment) (cmd : List Text) : ℕ :=
  strictness (policy.matchHostExecutableRules environment cmd)

variable {policy other : Policy} {environment : Environment} {cmd : List Text}
  {heuristicsFallback : List Text → Decision} {options : MatchOptions}

theorem exactStrictness_eq_zero_iff :
    policy.exactStrictness cmd = 0 ↔ policy.matchExactRules cmd = [] :=
  strictness_eq_zero_iff

theorem hostStrictness_eq :
    policy.hostStrictness environment cmd = match resolveProgram environment cmd with
      | none => 0
      | some (program, basename) =>
        if policy.listsExecutable program basename then
          policy.exactStrictness (basename :: cmd.drop 1)
        else 0 := by
  unfold hostStrictness matchHostExecutableRules
  cases resolveProgram environment cmd with
  | none => rfl
  | some resolved =>
    obtain ⟨program, basename⟩ := resolved
    dsimp only
    by_cases hrules : (policy.rulesFor basename).isEmpty
    · have hnone : policy.matchExactRules (basename :: cmd.drop 1) = [] := by
        rw [matchExactRules, isEmpty_iff.mp hrules]
        rfl
      rw [if_pos hrules, exactStrictness, hnone]
      simp
    · by_cases hlists : policy.listsExecutable program basename
      · simp [hrules, hlists, exactStrictness, matchBasenameRules, matchExactRules,
          strictness_map_withResolvedProgram]
      · simp [hlists]

/-- Exact rules come first, then those for executables. -/
theorem strictness_matchedRules :
    strictness (policy.matchedRules environment cmd options) =
      if policy.exactStrictness cmd ≠ 0 then policy.exactStrictness cmd
      else if options.resolveHostExecutables then policy.hostStrictness environment cmd
      else 0 := by
  unfold matchedRules exactStrictness hostStrictness
  cases hexact : policy.matchExactRules cmd with
  | nil => by_cases hresolve : options.resolveHostExecutables = true <;> simp [hresolve]
  | cons ruleMatch rest => simp [strictness]

/-- The severity of a check is the strictness of what matches, or that of the heuristics. -/
theorem checkWithOptions_severity :
    ∃ evaluation,
      policy.checkWithOptions environment cmd heuristicsFallback options = some evaluation ∧
      evaluation.decision.severity =
        if strictness (policy.matchedRules environment cmd options) = 0 then
          (heuristicsFallback cmd).severity
        else strictness (policy.matchedRules environment cmd options) - 1 := by
  obtain ⟨evaluation, heval, -, -⟩ :=
    @checkWithOptions_spec policy environment cmd heuristicsFallback options
  refine ⟨evaluation, heval, ?_⟩
  have hseverity := Evaluation.severity_of_fromMatches heval
  unfold matchesForCommandWithOptions at hseverity
  cases hmatched : policy.matchedRules environment cmd options with
  | nil =>
    rw [hmatched] at hseverity
    simpa [strictness, RuleMatch.decision] using hseverity
  | cons ruleMatch rest =>
    rw [hmatched] at hseverity
    have hpositive : strictness (ruleMatch :: rest) ≠ 0 := by
      rw [Ne, strictness_eq_zero_iff]
      exact cons_ne_nil _ _
    rw [if_neg hpositive]
    change _ = strictness (ruleMatch :: rest) at hseverity
    omega

/-- Two policies decide every command alike, whatever paths resolve to, what the
heuristics say and whether executables are resolved. -/
def SameDecisions (policy other : Policy) : Prop :=
  ∀ environment cmd heuristicsFallback options,
    (policy.checkWithOptions environment cmd heuristicsFallback options).map (·.decision) =
      (other.checkWithOptions environment cmd heuristicsFallback options).map (·.decision)

theorem decision_eq_iff :
    (policy.checkWithOptions environment cmd heuristicsFallback options).map (·.decision) =
        (other.checkWithOptions environment cmd heuristicsFallback options).map (·.decision) ↔
      (if strictness (policy.matchedRules environment cmd options) = 0 then
          (heuristicsFallback cmd).severity
        else strictness (policy.matchedRules environment cmd options) - 1) =
      (if strictness (other.matchedRules environment cmd options) = 0 then
          (heuristicsFallback cmd).severity
        else strictness (other.matchedRules environment cmd options) - 1) := by
  obtain ⟨evaluation, heval, hseverity⟩ :=
    @checkWithOptions_severity policy environment cmd heuristicsFallback options
  obtain ⟨evaluation', heval', hseverity'⟩ :=
    @checkWithOptions_severity other environment cmd heuristicsFallback options
  rw [heval, heval', ← hseverity, ← hseverity']
  constructor
  · intro h
    exact congrArg severity (Option.some.inj h)
  · intro h
    exact congrArg some (severity_injective h)

theorem hostStrictness_congr
    (hexact : ∀ cmd, policy.exactStrictness cmd = other.exactStrictness cmd)
    (hhosts : policy.hostExecutablesByName = other.hostExecutablesByName) :
    policy.hostStrictness environment cmd = other.hostStrictness environment cmd := by
  have hlists : policy.listsExecutable = other.listsExecutable := by
    funext program basename
    rw [listsExecutable, listsExecutable, hhosts]
  rw [hostStrictness_eq, hostStrictness_eq, hlists]
  cases resolveProgram environment cmd with
  | none => rfl
  | some resolved => simp only [hexact]

/-- With the same table of executables, policies decide alike if their exact rules are
equally strict for every command. -/
theorem sameDecisions_iff (hhosts : policy.hostExecutablesByName = other.hostExecutablesByName) :
    SameDecisions policy other ↔ ∀ cmd, policy.exactStrictness cmd = other.exactStrictness cmd := by
  constructor
  · intro hsame cmd
    -- Without resolution the fallback shows through where no exact rule matches.
    have hallow := decision_eq_iff.mp (hsame ⟨none, none⟩ cmd (fun _ => .allow) ⟨false⟩)
    have hprompt := decision_eq_iff.mp (hsame ⟨none, none⟩ cmd (fun _ => .prompt) ⟨false⟩)
    simp only [strictness_matchedRules, severity] at hallow hprompt
    by_cases hleft : policy.exactStrictness cmd = 0 <;>
      by_cases hright : other.exactStrictness cmd = 0 <;>
        simp [hleft, hright] at hallow hprompt ⊢ <;> omega
  · intro hexact environment cmd heuristicsFallback options
    rw [decision_eq_iff, strictness_matchedRules, strictness_matchedRules, hexact,
      hostStrictness_congr hexact hhosts]

end Policy

/-- The errors of rules; those of the reader of policies are not modelled. -/
inductive Error
  | invalidDecision (decision : Text)
  | invalidPattern (message : Text)
  | invalidRule (message : Text)
  deriving DecidableEq, Repr

/-- Add a rule for a prefix that is not empty. -/
def Policy.addPrefixRule (policy : Policy) (tokens : List Text) (decision : Decision) :
    Except Error Policy :=
  match tokens with
  | [] => .error (.invalidPattern "prefix cannot be empty".toList)
  | first :: rest =>
    .ok { policy with
      rulesByProgram := policy.rulesByProgram ++
        [(first, ⟨⟨first, rest.map .single⟩, decision, none⟩)] }

theorem all_isMatch_single_iff {tokens cmd : List Text} (h : tokens.length ≤ cmd.length) :
    ((tokens.map PatternToken.single).zip (cmd.take tokens.length)).all
        (fun pair => pair.1.isMatch pair.2) ↔ tokens <+: cmd := by
  induction tokens generalizing cmd with
  | nil => simp
  | cons token tokens ih =>
    cases cmd with
    | nil => simp at h
    | cons first cmd =>
      have hle : tokens.length ≤ cmd.length := by simpa using h
      rw [map_cons, length_cons, take_succ_cons, zip_cons_cons,
        all_cons, Bool.and_eq_true, ih hle, cons_prefix_cons]
      exact and_congr_left fun _ => decide_eq_true_iff

theorem matchesPrefix_single (first : Text) (rest cmd : List Text) :
    (⟨first, rest.map .single⟩ : PrefixPattern).matchesPrefix cmd =
      if first :: rest <+: cmd then some (first :: rest) else none := by
  unfold PrefixPattern.matchesPrefix
  cases cmd with
  | nil => simp
  | cons token cmd =>
    dsimp only
    rw [length_map, take_succ_cons, drop_one, tail_cons]
    by_cases hlength : rest.length ≤ cmd.length
    · have hall := all_isMatch_single_iff hlength
      have hshort : ¬ cmd.length + 1 < rest.length + 1 := by omega
      by_cases hfirst : token = first
      · subst hfirst
        by_cases hpre : rest <+: cmd
        · have htake : cmd.take rest.length = rest := by
            obtain ⟨tail, rfl⟩ := hpre
            exact take_left
          rw [if_pos (hall.mpr hpre), htake]
          simp [hshort, hpre]
        · rw [if_neg (mt hall.mp hpre)]
          simp [hpre]
      · simp [hfirst, Ne.symm hfirst]
    · have hnot : ¬ first :: rest <+: token :: cmd := by
        intro hpre
        exact hlength (by simpa using hpre.length_le)
      simp [hnot, Nat.lt_of_not_ge hlength]

theorem matchesPrefix_append {pattern : PrefixPattern} {cmd matched : List Text}
    (h : pattern.matchesPrefix cmd = some matched) (rest : List Text) :
    pattern.matchesPrefix (cmd ++ rest) = some matched := by
  unfold PrefixPattern.matchesPrefix at h ⊢
  dsimp only at h ⊢
  split at h
  · cases h
  next hlong =>
    simp only [Bool.or_eq_true, decide_eq_true_iff, not_or, Nat.not_lt] at hlong
    obtain ⟨hlength, hfirst⟩ := hlong
    have hhead : (cmd ++ rest).head? = cmd.head? := by
      cases cmd with
      | nil => simp at hlength
      | cons first cmd => rfl
    have hshort : ¬ (cmd ++ rest).length < pattern.rest.length + 1 := by
      rw [length_append]
      omega
    rw [take_append_of_le_length hlength, hhead, decide_eq_false hshort,
      Bool.false_or, if_neg hfirst]
    exact h

namespace Policy

variable {policy amended : Policy} {tokens cmd : List Text} {decision : Decision}

theorem exactStrictness_ne_zero_of_prefix (hpre : tokens <+: cmd)
    (h : policy.exactStrictness tokens ≠ 0) : policy.exactStrictness cmd ≠ 0 := by
  obtain ⟨rest, rfl⟩ := hpre
  rw [Ne, exactStrictness_eq_zero_iff] at h ⊢
  cases tokens with
  | nil => exact absurd rfl h
  | cons first tokens =>
    obtain ⟨ruleMatch, hmem⟩ := exists_mem_of_ne_nil _ h
    obtain ⟨rule, hrule, hmatch⟩ := mem_filterMap.mp hmem
    obtain ⟨matched, hmatched, heq⟩ := Option.map_eq_some_iff.mp hmatch
    have hlonger : rule.matches (first :: tokens ++ rest) = some ruleMatch :=
      Option.map_eq_some_iff.mpr ⟨matched, matchesPrefix_append hmatched rest, heq⟩
    exact ne_nil_of_mem (mem_filterMap.mpr ⟨rule, hrule, hlonger⟩)

theorem exists_addPrefixRule (policy : Policy) (hne : tokens ≠ []) (decision : Decision) :
    ∃ amended, policy.addPrefixRule tokens decision = .ok amended := by
  cases tokens with
  | nil => exact absurd rfl hne
  | cons first rest => exact ⟨_, rfl⟩

section

variable (h : policy.addPrefixRule tokens decision = .ok amended)
include h

theorem hostExecutablesByName_addPrefixRule :
    amended.hostExecutablesByName = policy.hostExecutablesByName := by
  cases tokens with
  | nil => cases h
  | cons first rest =>
    cases h
    rfl

theorem networkRules_addPrefixRule : amended.networkRules = policy.networkRules := by
  cases tokens with
  | nil => cases h
  | cons first rest =>
    cases h
    rfl

/-- A new rule raises the strictness of the commands that it begins. -/
theorem exactStrictness_addPrefixRule (cmd : List Text) :
    amended.exactStrictness cmd =
      max (policy.exactStrictness cmd) (if tokens <+: cmd then decision.severity + 1 else 0) := by
  cases tokens with
  | nil => cases h
  | cons first rest =>
    cases h
    cases cmd with
    | nil => simp [exactStrictness, matchExactRules]
    | cons token cmd =>
      by_cases hfirst : first = token
      · subst hfirst
        have hmatch := matchesPrefix_single first rest (first :: cmd)
        by_cases hpre : first :: rest <+: first :: cmd
        · rw [if_pos hpre] at hmatch ⊢
          simp [exactStrictness, matchExactRules, rulesFor, PrefixRule.matches, hmatch,
            strictness_append, strictness, RuleMatch.decision]
        · rw [if_neg hpre] at hmatch ⊢
          simp [exactStrictness, matchExactRules, rulesFor, PrefixRule.matches, hmatch]
      · simp [exactStrictness, matchExactRules, rulesFor, hfirst]

end

end Policy

end Rexux.ExecPolicy
