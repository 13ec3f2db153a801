import Rexux.ExecPolicy.NetworkRules
import Rexux.Foundation.Quoted

/-!
# Rules in files

A rule is added to a file as a line with one call, whose arguments are quoted strings.
The language of such files has a reader of its own, of which only the following is
assumed: a line of this form that is appended to a file makes it evaluate the call
(`RulesReader`).  A reader of nothing but these lines is one (`lineReader`).
-/

namespace Rexux.ExecPolicy

open Foundation List Option

def Decision.parse (raw : Text) : Except Error Decision :=
  if raw = "allow".toList then .ok .allow
  else if raw = "prompt".toList then .ok .prompt
  else if raw = "forbidden".toList then .ok .forbidden
  else .error (.invalidDecision raw)

def parseNetworkRuleDecision (raw : Text) : Except Error Decision :=
  if raw = "deny".toList then .ok .forbidden else Decision.parse raw

namespace NetworkRuleProtocol

def parse (raw : Text) : Except Error NetworkRuleProtocol :=
  if raw = "http".toList then .ok .http
  else if raw = "https".toList || raw = "https_connect".toList || raw = "http-connect".toList
    then .ok .https
  else if raw = "socks5_tcp".toList then .ok .socks5Tcp
  else if raw = "socks5_udp".toList then .ok .socks5Udp
  else
    .error (.invalidRule
      ("network_rule protocol must be one of http, https, socks5_tcp, socks5_udp (got ".toList ++
        raw ++ ")".toList))

def asPolicyString : NetworkRuleProtocol → Text
  | .http => "http".toList
  | .https => "https".toList
  | .socks5Tcp => "socks5_tcp".toList
  | .socks5Udp => "socks5_udp".toList

@[simp] theorem parse_asPolicyString (protocol : NetworkRuleProtocol) :
    parse protocol.asPolicyString = .ok protocol := by
  cases protocol <;> decide

end NetworkRuleProtocol

def networkDecisionString : Decision → Text
  | .allow => "allow".toList
  | .prompt => "prompt".toList
  | .forbidden => "deny".toList

@[simp] theorem parse_networkDecisionString (decision : Decision) :
    parseNetworkRuleDecision (networkDecisionString decision) = .ok decision := by
  cases decision <;> decide

/-- A line of a rules file, as it is written by an update. -/
inductive RuleCall
  | prefixRule (pattern : List Text) (decision : Text)
  | networkRule (host protocol decision : Text) (justification : Option Text)
  deriving DecidableEq, Repr

namespace RuleCall

/-- The text of the call. -/
def render : RuleCall → Text
  | .prefixRule pattern decision =>
    "prefix_rule(pattern=[".toList ++ List.intercalate ", ".toList (pattern.map quote) ++
      "]".toList ++ ", decision=".toList ++ quote decision ++ ")".toList
  | .networkRule host protocol decision justification =>
    "network_rule(host=".toList ++ quote host ++ ", protocol=".toList ++ quote protocol ++
      ", decision=".toList ++ quote decision ++
      (match justification with
        | some justification => ", justification=".toList ++ quote justification
        | none => []) ++ ")".toList

/-- What the call does to a policy that is being parsed. -/
def apply (policy : Policy) : RuleCall → Except Error Policy
  | .prefixRule pattern decision =>
    (Decision.parse decision).bind fun decision =>
      match pattern with
      | [] => .error (.invalidPattern "pattern cannot be empty".toList)
      | _ => policy.addPrefixRule pattern decision
  | .networkRule host protocol decision justification =>
    (NetworkRuleProtocol.parse protocol).bind fun protocol =>
      (parseNetworkRuleDecision decision).bind fun decision =>
        policy.addNetworkRule host protocol decision justification

end RuleCall

/-- The line feed that is missing at the end of a file. -/
def missingLineFeed (contents : Text) : Text :=
  if contents ≠ [] && contents.getLast? ≠ some '\n' then ['\n'] else []

/-- A line at the end of the file, on a line of its own. -/
def appendLine (contents line : Text) : Text :=
  contents ++ missingLineFeed contents ++ (line ++ ['\n'])

/-- A reader of files with rules, which reads back the calls that are appended. -/
structure RulesReader where
  parse : Text → Option Policy
  parse_appendLine : ∀ contents policy (call : RuleCall), parse contents = some policy →
    parse (appendLine contents call.render) = (call.apply policy).toOption

def expect (literal : String) (text : Text) : Option Text := literal.toList.isPrefixOf? text

def readStrings : ℕ → Text → Option (List Text × Text)
  | 0, _ => none
  | fuel + 1, text =>
    (readString text).bind fun first =>
      match expect ", " first.2 with
      | some rest => (readStrings fuel rest).map fun read => (first.1 :: read.1, read.2)
      | none => (expect "]" first.2).map fun rest => ([first.1], rest)

namespace RuleCall

/-- The strings of a pattern, up to the bracket. -/
def readPattern (text : Text) : Option (List Text × Text) :=
  match expect "]" text with
  | some rest => some ([], rest)
  | none => readStrings text.length text

def readPrefixRule (text : Text) : Option RuleCall :=
  (expect "prefix_rule(pattern=[" text).bind fun text =>
  (readPattern text).bind fun pattern =>
  (expect ", decision=" pattern.2).bind fun text =>
  (readString text).bind fun decision =>
    if decision.2 = ")".toList then some (.prefixRule pattern.1 decision.1) else none

def readJustification (text : Text) : Option (Option Text) :=
  if text = ")".toList then some none
  else
    (expect ", justification=" text).bind fun text =>
    (readString text).bind fun justification =>
      if justification.2 = ")".toList then some (some justification.1) else none

def readNetworkRule (text : Text) : Option RuleCall :=
  (expect "network_rule(host=" text).bind fun text =>
  (readString text).bind fun host =>
  (expect ", protocol=" host.2).bind fun text =>
  (readString text).bind fun protocol =>
  (expect ", decision=" protocol.2).bind fun text =>
  (readString text).bind fun decision =>
  (readJustification decision.2).map fun justification =>
    .networkRule host.1 protocol.1 decision.1 justification

/-- The call that was rendered to a text. -/
def read (text : Text) : Option RuleCall := (readPrefixRule text).or (readNetworkRule text)

end RuleCall

theorem expect_append (literal : String) (rest : Text) :
    expect literal (literal.toList ++ rest) = some rest := by
  unfold expect
  induction literal.toList with
  | nil => rfl
  | cons c literal ih => simp

theorem intercalate_quote_cons (token next : Text) (pattern : List Text) :
    List.intercalate ", ".toList ((token :: next :: pattern).map quote) =
      quote token ++
        (", ".toList ++ List.intercalate ", ".toList ((next :: pattern).map quote)) := by
  rw [map_cons, map_cons, intercalate_cons_cons, append_assoc]

theorem readStrings_intercalate {pattern : List Text} (hne : pattern ≠ []) {fuel : ℕ}
    (hfuel : pattern.length ≤ fuel) (rest : Text) :
    readStrings fuel
        (List.intercalate ", ".toList (pattern.map quote) ++ ("]".toList ++ rest)) =
      some (pattern, rest) := by
  induction pattern generalizing fuel with
  | nil => exact absurd rfl hne
  | cons token pattern ih =>
    obtain ⟨fuel, rfl⟩ : ∃ left, fuel = left + 1 := by
      cases fuel with
      | zero => simp at hfuel
      | succ left => exact ⟨left, rfl⟩
    cases pattern with
    | nil =>
      have hjoin : List.intercalate ", ".toList ([token].map quote) = quote token :=
        intercalate_singleton
      rw [hjoin, readStrings, readString_quote]
      rfl
    | cons next pattern =>
      have htail := ih (by simp) (Nat.le_of_succ_le_succ hfuel)
      rw [intercalate_quote_cons, append_assoc, append_assoc, readStrings,
        readString_quote, bind_some, expect_append]
      change (readStrings fuel _).map _ = _
      rw [htail]
      rfl

theorem length_le_intercalate_quote (pattern : List Text) :
    pattern.length ≤ (List.intercalate ", ".toList (pattern.map quote)).length := by
  induction pattern with
  | nil => simp
  | cons token pattern ih =>
    cases pattern with
    | nil => simp [quote]
    | cons next pattern =>
      have hquote : 0 < (quote token).length := by simp [quote]
      rw [intercalate_quote_cons, length_append, length_append, length_cons]
      omega

namespace RuleCall

variable (pattern : List Text)

/-- A printed pattern is read back. -/
theorem readPattern_intercalate (rest : Text) :
    readPattern (List.intercalate ", ".toList (pattern.map quote) ++ ("]".toList ++ rest)) =
      some (pattern, rest) := by
  unfold readPattern
  cases pattern with
  | nil => rw [map_nil, intercalate_nil, nil_append, expect_append]
  | cons token pattern =>
    have hquote : (List.intercalate ", ".toList ((token :: pattern).map quote)).head? =
        some '"' := by
      cases pattern with
      | nil => rw [map_cons, map_nil, intercalate_singleton, quote, head?_cons]
      | cons next pattern =>
        rw [intercalate_quote_cons, head?_append, quote, head?_cons, some_or]
    have hexpect : expect "]" (List.intercalate ", ".toList ((token :: pattern).map quote) ++
        ("]".toList ++ rest)) = none := by
      refine isPrefixOf?_eq_none_of_head?_ne _ (show _ = some ']' by decide) ?_
      rw [head?_append, hquote, some_or]
      decide
    rw [hexpect]
    refine readStrings_intercalate (cons_ne_nil _ _) ?_ rest
    have hle := length_le_intercalate_quote (token :: pattern)
    rw [length_append]
    omega

theorem read_prefixRule (decision : Text) :
    read (render (.prefixRule pattern decision)) = some (.prefixRule pattern decision) := by
  have hrender : render (.prefixRule pattern decision) =
      "prefix_rule(pattern=[".toList ++
        (List.intercalate ", ".toList (pattern.map quote) ++
          ("]".toList ++ (", decision=".toList ++ (quote decision ++ ")".toList)))) := by
    unfold render
    simp only [append_assoc]
  have hread : readPrefixRule (render (.prefixRule pattern decision)) =
      some (.prefixRule pattern decision) := by
    rw [hrender, readPrefixRule, expect_append, bind_some, readPattern_intercalate,
      bind_some, expect_append, bind_some, readString_quote]
    rfl
  rw [read, hread, some_or]

theorem read_networkRule (host protocol decision : Text) (justification : Option Text) :
    read (render (.networkRule host protocol decision justification)) =
      some (.networkRule host protocol decision justification) := by
  have hrender : render (.networkRule host protocol decision justification) =
      "network_rule(host=".toList ++ (quote host ++ (", protocol=".toList ++
        (quote protocol ++ (", decision=".toList ++ (quote decision ++ (match justification with
            | some justification => ", justification=".toList ++ (quote justification ++ ")".toList)
            | none => ")".toList)))))) := by
    unfold render
    cases justification with
    | none => simp only [append_assoc, nil_append]
    | some justification => simp only [append_assoc]
  have hpre : readPrefixRule (render (.networkRule host protocol decision justification)) =
      none := by
    have hexpect : expect "prefix_rule(pattern=["
        (render (.networkRule host protocol decision justification)) = none := by
      have hopening : "network_rule(host=".toList.head? = some 'n' := by decide
      refine isPrefixOf?_eq_none_of_head?_ne _ (show _ = some 'p' by decide) ?_
      rw [hrender, head?_append, hopening, some_or]
      decide
    rw [readPrefixRule, hexpect, bind_none]
  rw [read, hpre, hrender, readNetworkRule, expect_append, bind_some,
    readString_quote, bind_some, expect_append, bind_some, readString_quote,
    bind_some, expect_append, bind_some, readString_quote, bind_some]
  cases justification with
  | none => rfl
  | some justification =>
    have hread : readJustification (", justification=".toList ++
        (quote justification ++ ")".toList)) = some (some justification) := by
      rw [readJustification, expect_append, bind_some, readString_quote]
      rfl
    simp only [hread]
    rfl

theorem read_render (call : RuleCall) : read call.render = some call := by
  cases call with
  | prefixRule pattern decision => exact read_prefixRule pattern decision
  | networkRule host protocol decision justification =>
    exact read_networkRule host protocol decision justification

theorem lf_not_mem_intercalate_quote :
    '\n' ∉ List.intercalate ", ".toList (pattern.map quote) := by
  induction pattern with
  | nil => exact not_mem_nil
  | cons token pattern ih =>
    cases pattern with
    | nil =>
      rw [map_cons, map_nil, intercalate_singleton]
      exact lf_not_mem_quote token
    | cons next pattern =>
      rw [intercalate_quote_cons, mem_append, mem_append, not_or, not_or]
      exact ⟨lf_not_mem_quote token, by decide, ih⟩

theorem lf_not_mem_render (call : RuleCall) : '\n' ∉ call.render := by
  cases call with
  | prefixRule pattern decision =>
    refine not_mem_append (not_mem_append (not_mem_append
      (not_mem_append (not_mem_append ?_ (lf_not_mem_intercalate_quote pattern)) ?_)
      ?_) (lf_not_mem_quote decision)) ?_
    all_goals decide +kernel
  | networkRule host protocol decision justification =>
    refine not_mem_append (not_mem_append (not_mem_append
      (not_mem_append (not_mem_append (not_mem_append (not_mem_append
        ?_ (lf_not_mem_quote host)) ?_) (lf_not_mem_quote protocol)) ?_)
        (lf_not_mem_quote decision)) ?_) ?_
    case refine_4 =>
      cases justification with
      | none => exact not_mem_nil
      | some justification =>
        refine not_mem_append ?_ (lf_not_mem_quote justification)
        decide +kernel
    all_goals decide +kernel

theorem getLast?_render (call : RuleCall) : call.render.getLast? = some ')' := by
  cases call with
  | prefixRule | networkRule => exact getLast?_concat

end RuleCall

def fileLines (contents : Text) : List Text :=
  ((cutLines contents).1 ++ [(cutLines contents).2]).map (stripSuffixChar '\r')

/-- Lines that are no call are passed over. -/
def readLine (policy : Policy) (line : Text) : Option Policy :=
  match RuleCall.read line with
  | none => some policy
  | some call => (call.apply policy).toOption

/-- The policy of a file that has rendered calls only. -/
def readLines (contents : Text) : Option Policy := (fileLines contents).foldlM readLine ⟨[], [], []⟩

theorem fileLines_append_lf (contents rest : Text) :
    fileLines (contents ++ '\n' :: rest) = fileLines contents ++ fileLines rest := by
  simp [fileLines, cutLines_append_lf]

theorem fileLines_render (call : RuleCall) : fileLines call.render = [call.render] := by
  have hlast : call.render.getLast? ≠ some '\r' := by
    rw [call.getLast?_render]
    decide
  simp [fileLines, cutLines_of_lf_not_mem call.lf_not_mem_render, stripSuffixChar_of_ne hlast]

theorem readLine_render (policy : Policy) (call : RuleCall) :
    readLine policy call.render = (call.apply policy).toOption := by
  rw [readLine, call.read_render]

/-- An appended call becomes the last line, behind blank lines at most. -/
theorem fileLines_appendLine (contents : Text) (call : RuleCall) :
    ∃ before blank, fileLines contents = before ++ blank ∧ (∀ line ∈ blank, line = []) ∧
      fileLines (appendLine contents call.render) = before ++ [call.render] ++ [[]] := by
  have hline : fileLines (call.render ++ ['\n']) = [call.render] ++ [[]] := by
    rw [fileLines_append_lf, fileLines_render]
    rfl
  unfold appendLine
  by_cases hempty : contents = []
  · subst hempty
    exact ⟨[], [[]], rfl, by simp, hline⟩
  · by_cases hlast : contents.getLast? = some '\n'
    · have hconcat := (dropLast_append_getLast? _ hlast).symm
      refine ⟨fileLines contents.dropLast, [[]], ?_, by simp, ?_⟩
      · rw [hconcat, fileLines_append_lf, dropLast_concat]
        rfl
      · have hnone : missingLineFeed contents = [] := by simp [missingLineFeed, hlast]
        rw [hnone, append_nil, hconcat, append_assoc, singleton_append,
          fileLines_append_lf, hline, dropLast_concat, append_assoc]
    · have hfeed : missingLineFeed contents = ['\n'] := by
        simp [missingLineFeed, hempty, hlast]
      refine ⟨fileLines contents, [], by simp, by simp, ?_⟩
      rw [hfeed, append_assoc, singleton_append, fileLines_append_lf, hline, append_assoc]

theorem foldlM_readLine_blank {blank : List Text} (hblank : ∀ line ∈ blank, line = [])
    (policy : Policy) : blank.foldlM readLine policy = some policy := by
  induction blank with
  | nil => rfl
  | cons line blank ih =>
    rw [forall_mem_cons] at hblank
    rw [hblank.1]
    exact ih hblank.2

/-- A reader for files that have rendered calls only. -/
def lineReader : RulesReader where
  parse := readLines
  parse_appendLine contents policy call hparse := by
    obtain ⟨before, blank, hlines, hblank, hlines'⟩ := fileLines_appendLine contents call
    have hbefore : before.foldlM readLine ⟨[], [], []⟩ = some policy := by
      rw [readLines, hlines, foldlM_append] at hparse
      cases hread : before.foldlM readLine ⟨[], [], []⟩ with
      | none =>
        rw [hread] at hparse
        cases hparse
      | some read =>
        rw [hread] at hparse
        change blank.foldlM readLine read = some policy at hparse
        rw [foldlM_readLine_blank hblank] at hparse
        exact hparse
    rw [readLines, hlines', foldlM_append, foldlM_append, hbefore]
    change ((readLine policy call.render).bind fun read => some read).bind
      (fun read => [[]].foldlM readLine read) = _
    rw [readLine_render]
    cases call.apply policy <;> rfl

end Rexux.ExecPolicy
