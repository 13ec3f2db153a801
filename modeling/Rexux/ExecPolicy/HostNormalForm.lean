import Mathlib.Data.List.Chain
import Rexux.ExecPolicy.NetworkRules

/-!
# Hosts that are normalised again

A rule that was added to a running policy is written with its normalised host, which is
normalised once more when the file is read.  One pass takes off one pair of brackets or one
port, and the dots at the end before the blanks.  What it leaves can be such a layer again:
`HasOneLayer` says of the text that is given when it cannot.
-/

namespace Rexux.ExecPolicy

open Foundation Rexux.NetworkProxy List Option

/-- The text in the brackets, or all of it if there are none. -/
def hostText (raw : Text) : Text :=
  match trim raw with
  | '[' :: stripped => trimStart (stripped.takeWhile (· ≠ ']'))
  | host => host

/-- A colon and digits, with nothing but dots and blanks behind them. -/
structure PortIn (t name port rest : Text) : Prop where
  eq_append : name ++ [':'] ++ (port ++ rest) = t
  colon : ':' ∉ name
  named : name ≠ []
  digits : isPort port
  rest : ∀ c ∈ rest, c = '.' || isWhitespace c

/-- Below the layer that the first pass takes off there is no other. -/
structure HasOneLayer (raw : Text) : Prop where
  /-- Brackets do not open in brackets. -/
  bracket : (hostText raw).head? ≠ some '['
  /-- No blank follows a dot. -/
  dot : (hostText raw).IsChain fun c next => c = '.' → isWhitespace next = false
  /-- A port is not in brackets, and nothing follows it. -/
  port : ∀ name port rest, PortIn (hostText raw) name port rest →
    rest = [] ∧ (trim raw).head? ≠ some '['

/-- There is no bracket, dot or port to take off. -/
structure IsStripped (host : Text) : Prop where
  bracket : host.head? ≠ some '['
  dot : host.getLast? ≠ some '.'
  port : ∀ name port, ¬ PortIn host name port []

section Texts

variable {delimiter t before after : Text} {c d : Char}

theorem append_eq_of_splitOnce (h : splitOnce delimiter t = some (before, after)) :
    before ++ delimiter ++ after = t := by
  induction t generalizing before with
  | nil =>
    obtain ⟨rest, hrest, heq⟩ := map_eq_some_iff.mp h
    cases heq
    simpa using isPrefixOf?_eq_some_iff_append_eq.mp hrest
  | cons c t ih =>
    unfold splitOnce at h
    split at h
    next rest hrest =>
      cases h
      simpa using isPrefixOf?_eq_some_iff_append_eq.mp hrest
    · obtain ⟨parts, hparts, heq⟩ := map_eq_some_iff.mp h
      cases heq
      rw [cons_append, cons_append, ih hparts]

theorem splitOnce_singleton_iff :
    splitOnce [d] t = some (before, after) ↔ before ++ [d] ++ after = t ∧ d ∉ before := by
  induction t generalizing before with
  | nil => simp [splitOnce]
  | cons c t ih =>
    by_cases hc : d = c
    · subst hc
      have hfound : [d].isPrefixOf? (d :: t) = some t := by simp
      cases before <;> grind [splitOnce]
    · have hmissed : [d].isPrefixOf? (c :: t) = none := if_neg (by simpa using hc)
      simp only [splitOnce, hmissed, map_eq_some_iff, Prod.exists, Prod.mk.injEq]
      cases before <;> grind

theorem isDigit_toLower (c : Char) : c.toLower.isDigit = c.isDigit := by
  have hdigit : ∀ c : Char, c.isDigit = (decide (48 ≤ c.toNat) && decide (c.toNat ≤ 57)) :=
    fun _ => rfl
  rw [hdigit, toNat_toLower]
  split_ifs <;> grind

theorem isPort_toAsciiLowercase (t : Text) : isPort (toAsciiLowercase t) = isPort t := by
  simp [isPort, toAsciiLowercase, Function.comp_def, isDigit_toLower]

/-- No character of a port is taken for what may follow it. -/
theorem isPort_apart {port : Text} (h : isPort port) (hc : c ∈ port) :
    c ≠ ':' ∧ c ≠ '.' ∧ isWhitespace c = false := by
  simp only [isPort, Bool.and_eq_true, List.all_eq_true] at h
  have hdigit : 48 ≤ c.toNat ∧ c.toNat ≤ 57 := by
    simpa [Char.isDigit, UInt32.le_iff_toNat_le] using h.2 c hc
  refine ⟨?_, ?_, ?_⟩
  · rintro rfl
    exact absurd hdigit (by decide)
  · rintro rfl
    exact absurd hdigit (by decide)
  · simp only [isWhitespace]
    grind

theorem rdropWhile_append_of_forall (front : Text) {rest : Text} {p : Char → Bool}
    (hrest : ∀ c ∈ rest, p c) (hlast : t.getLast? = some d) (hd : p d = false) :
    (front ++ t ++ rest).rdropWhile p = front ++ t := by
  obtain ⟨t, rfl⟩ := getLast?_eq_some_iff.mp hlast
  rw [rdropWhile, reverse_append, dropWhile_append_of_pos (by simpa using hrest)]
  change (front ++ (t ++ [d])).rdropWhile p = _
  rw [← append_assoc, rdropWhile_concat_neg _ _ _ (by simp [hd])]

theorem exists_append_rdropWhile (p : Char → Bool) (t : Text) :
    ∃ rest, t.rdropWhile p ++ rest = t ∧ ∀ c ∈ rest, p c :=
  ⟨t.rtakeWhile p, by simp [rdropWhile, rtakeWhile, ← reverse_append],
    fun c hc => mem_takeWhile_imp (mem_reverse.mp hc)⟩

end Texts

section Ports

variable {t r name port rest inside : Text} {c : Char}

theorem isStripped_toAsciiLowercase : IsStripped (toAsciiLowercase t) ↔ IsStripped t := by
  have hcase : ∀ {e}, isCaseless e → ∀ d : Char, d.toLower = e ↔ d = e :=
    toLower_eq_iff_of_isCaseless
  have hmem : ∀ l : Text, ':' ∈ toAsciiLowercase l ↔ ':' ∈ l := by
    intro l
    simp [toAsciiLowercase, hcase (show isCaseless ':' by decide)]
  have hbracket : (toAsciiLowercase t).head? = some '[' ↔ t.head? = some '[' := by
    simp [toAsciiLowercase, hcase (show isCaseless '[' by decide)]
  have hdot : (toAsciiLowercase t).getLast? = some '.' ↔ t.getLast? = some '.' := by
    simp [toAsciiLowercase, hcase (show isCaseless '.' by decide)]
  constructor
  · rintro ⟨h₁, h₂, hport⟩
    refine ⟨mt hbracket.mpr h₁, mt hdot.mpr h₂, ?_⟩
    rintro name port ⟨rfl, hcolon, hname, hdigits, hrest⟩
    refine hport (toAsciiLowercase name) (toAsciiLowercase port)
      ⟨by simp [toAsciiLowercase, show Char.toLower ':' = ':' from rfl], mt (hmem _).mp hcolon,
        by simpa [toAsciiLowercase] using hname, by rwa [isPort_toAsciiLowercase], hrest⟩
  · rintro ⟨h₁, h₂, hport⟩
    refine ⟨mt hbracket.mp h₁, mt hdot.mp h₂, ?_⟩
    rintro name port ⟨heq, hcolon, hname, hdigits, hrest⟩
    obtain ⟨left, right, rfl, hleft, hright⟩ := map_eq_append_iff.mp heq.symm
    obtain ⟨name, colon, rfl, rfl, hcolon'⟩ := map_eq_append_iff.mp hleft
    obtain ⟨c, rfl, hc⟩ := map_eq_singleton_iff.mp hcolon'
    obtain rfl := (hcase (by decide) c).mp hc
    rw [append_nil] at hright
    subst hright
    exact hport name right ⟨by simp, mt (hmem _).mpr hcolon, by simpa using hname,
      (isPort_toAsciiLowercase right).symm.trans hdigits, hrest⟩

/-- Blanks at the front, blanks at the end and dots behind them are taken off. -/
theorem exists_append_trim_trimEndDots (t : Text) :
    ∃ front back dots, front ++ trim (trimEndDots t) ++ back ++ dots = t ∧
      (∀ c ∈ front, isWhitespace c) ∧ (∀ c ∈ back, isWhitespace c) ∧ (∀ c ∈ dots, c = '.') ∧
      (back = [] → (trim (trimEndDots t)).getLast? ≠ some '.') := by
  obtain ⟨dots, hdots, hdot⟩ := exists_append_rdropWhile (· == '.') t
  obtain ⟨back, hback, hblank⟩ := exists_append_rdropWhile isWhitespace (trimStart (trimEndDots t))
  have hall : (trimEndDots t).takeWhile isWhitespace ++ trim (trimEndDots t) ++ back =
      trimEndDots t := by
    rw [append_assoc]
    exact (congrArg _ hback).trans takeWhile_append_dropWhile
  refine ⟨(trimEndDots t).takeWhile isWhitespace, back, dots,
    (congrArg (· ++ dots) hall).trans hdots, fun c => mem_takeWhile_imp, hblank,
    by simpa using hdot, ?_⟩
  rintro rfl hlast
  have hdotted : '.' ∈ (trimEndDots t).getLast? := by
    rw [← hall, append_nil, getLast?_append, hlast]
    rfl
  obtain ⟨hne, heq⟩ := mem_getLast?_eq_getLast hdotted
  exact rdropWhile_last_not _ t hne (beq_iff_eq.mpr heq.symm)

theorem length_trim_trimEndDots_le (t : Text) : (trim (trimEndDots t)).length ≤ t.length := by
  obtain ⟨front, back, dots, heq, -⟩ := exists_append_trim_trimEndDots t
  have hlength := congrArg length heq
  simp only [length_append] at hlength
  omega

theorem trim_trimEndDots_subset (t : Text) : trim (trimEndDots t) ⊆ t := by
  obtain ⟨front, back, dots, heq, -⟩ := exists_append_trim_trimEndDots t
  intro c hc
  rw [← heq]
  simp [hc]

theorem isChain_append_of_visible {R : Char → Char → Prop}
    (hR : ∀ c d, isWhitespace d = false → R c d) (hrest : ∀ c ∈ rest, isWhitespace c = false) :
    (t ++ rest).IsChain R ↔ t.IsChain R := by
  rw [isChain_append, and_iff_left]
  exact ⟨(pairwise_of_forall_mem_list fun c _ d hd => hR c d (hrest d hd)).isChain,
    fun c _ d hd => hR c d (hrest d (mem_of_mem_head? hd))⟩

/-- What is left ends in a dot just if a blank stood behind one. -/
theorem isChain_dots_iff {back dots : Text} (hr : ∀ c ∈ r, isWhitespace c = false)
    (hback : ∀ c ∈ back, isWhitespace c) (hdots : ∀ c ∈ dots, c = '.')
    (hlast : back = [] → r.getLast? ≠ some '.') :
    (r ++ back ++ dots).IsChain (fun c next => c = '.' → isWhitespace next = false) ↔
      r.getLast? ≠ some '.' := by
  have hvisible : ∀ c d : Char, isWhitespace d = false → c = '.' → isWhitespace d = false :=
    fun _ _ h _ => h
  rw [isChain_append_of_visible hvisible fun c hc => hdots c hc ▸ rfl, isChain_append]
  constructor
  · rintro ⟨-, -, hnext⟩ hdot
    obtain ⟨c, rest, rfl⟩ := exists_cons_of_ne_nil fun hnil => hlast hnil hdot
    have hblank := hnext '.' hdot c rfl rfl
    simp [hback c (by simp)] at hblank
  · intro hdot
    refine ⟨(isChain_append_of_visible (t := []) hvisible hr).mpr .nil, ?_, ?_⟩
    · refine (pairwise_of_forall_mem_list ?_).isChain
      rintro c hc d - rfl
      exact absurd (hback _ hc) (by decide)
    · rintro c hc d - rfl
      exact absurd hc hdot

/-- What is left has a port just if one stood there, before dots and blanks only. -/
theorem portIn_append_iff (hr : ∀ c ∈ r, isWhitespace c = false) (hne : r ≠ [])
    (hlast : r.getLast? ≠ some '.') (hrest : ∀ c ∈ rest, c = '.' || isWhitespace c) :
    (∀ name port, ¬ PortIn r name port []) ↔
      ∀ name port rest', ¬ PortIn (r ++ rest) name port rest' := by
  constructor
  · rintro hnone name port rest' ⟨heq, hcolon, hname, hport, hrest'⟩
    -- Dots and blanks are taken off the end of both.
    obtain ⟨d, hd⟩ := Option.ne_none_iff_exists'.mp (mt getLast?_eq_none_iff.mp hne)
    have hdot : d ≠ '.' := by rintro rfl; exact hlast hd
    have hleft := rdropWhile_append_of_forall [] hrest hd
      (by simp [hdot, hr d (mem_of_getLast? hd)])
    have hdigits : port ≠ [] := by rintro rfl; exact absurd hport (by decide)
    obtain ⟨e, he⟩ := Option.ne_none_iff_exists'.mp (mt getLast?_eq_none_iff.mp hdigits)
    have hright := rdropWhile_append_of_forall (name ++ [':']) hrest' he
      (by simp [isPort_apart hport (mem_of_getLast? he)])
    rw [append_assoc, heq] at hright
    exact hnone name port ⟨by simpa using hright.symm.trans hleft, hcolon, hname, hport, by simp⟩
  · rintro hnone name port ⟨rfl, hcolon, hname, hport, -⟩
    exact hnone name port rest ⟨by simp, hcolon, hname, hport, hrest⟩

/-- The colon of a port is the first one. -/
theorem PortIn.rest_eq_nil {name' port' : Text} (h : PortIn t name port rest)
    (h' : PortIn t name' port' []) : rest = [] := by
  have hleft := splitOnce_singleton_iff.mpr ⟨h.eq_append, h.colon⟩
  have hright := splitOnce_singleton_iff.mpr ⟨h'.eq_append, h'.colon⟩
  obtain ⟨-, rfl⟩ : name = name' ∧ port ++ rest = port' := by
    simpa using hleft.symm.trans hright
  refine eq_nil_iff_forall_not_mem.mpr fun c hc => ?_
  have hdigit := isPort_apart h'.digits (mem_append_right _ hc)
  simpa [hdigit] using h.rest c hc

/-- What a second pass would strip, read off the text that the first one leaves to trim. -/
theorem isStripped_iff (hne : trim (trimEndDots t) ≠ [])
    (hwhite : ∀ c ∈ trim (trimEndDots t), isWhitespace c = false) :
    IsStripped (trim (trimEndDots t)) ↔ (trimStart t).head? ≠ some '[' ∧
      (trimStart t).IsChain (fun c next => c = '.' → isWhitespace next = false) ∧
      ∀ name port rest, ¬ PortIn (trimStart t) name port rest := by
  obtain ⟨front, back, dots, heq, hfront, hback, hdots, hlast⟩ := exists_append_trim_trimEndDots t
  generalize trim (trimEndDots t) = r at *
  have hstart : trimStart t = r ++ back ++ dots := by
    obtain ⟨c, r, rfl⟩ := exists_cons_of_ne_nil hne
    rw [← heq, append_assoc, append_assoc, append_assoc, trimStart, dropWhile_append_of_pos hfront]
    exact trimStart_cons_of_not_whitespace (hwhite c (by simp)) _
  have hrest : ∀ c ∈ back ++ dots, c = '.' || isWhitespace c := by
    intro c hc
    rcases mem_append.mp hc with hc | hc
    · simp [hback c hc]
    · simp [hdots c hc]
  rw [hstart, isChain_dots_iff hwhite hback hdots hlast, append_assoc, head?_append_of_ne_nil _ hne]
  constructor
  · rintro ⟨hbracket, hdot, hport⟩
    exact ⟨hbracket, hdot, (portIn_append_iff hwhite hne hdot hrest).mp hport⟩
  · rintro ⟨hbracket, hdot, hport⟩
    exact ⟨hbracket, hdot, (portIn_append_iff hwhite hne hdot hrest).mpr hport⟩

end Ports

section Hosts

variable {raw host inside t : Text}

/-- Without brackets a host keeps all but its port. -/
theorem hostWithoutPort_of_unbracketed (raw : Text) (h : host.head? ≠ some '[') :
    (∀ name port, ¬ PortIn host name port []) ∧ hostWithoutPort raw host = .ok host ∨
      ∃ name port, PortIn host name port [] ∧ hostWithoutPort raw host = .ok name := by
  have hsplit : ∀ {name port}, splitOnce ":".toList host = some (name, port) ↔
      name ++ [':'] ++ port = host ∧ ':' ∉ name := splitOnce_singleton_iff
  unfold hostWithoutPort
  split
  · exact absurd rfl h
  by_cases hport : ∃ name port, PortIn host name port []
  · obtain ⟨name, port, hin⟩ := hport
    have heq : name ++ [':'] ++ port = host := by simpa using hin.eq_append
    have hcount : host.count ':' = 1 := by
      have hport : ':' ∉ port := fun hmem => (isPort_apart hin.digits hmem).1 rfl
      simp [← heq, count_eq_zero.mpr hin.colon, count_eq_zero.mpr hport]
    refine .inr ⟨name, port, hin, ?_⟩
    rw [if_pos hcount, hsplit.mpr ⟨heq, hin.colon⟩]
    simp [hin.named, hin.digits]
  · simp only [not_exists] at hport
    refine .inl ⟨hport, ?_⟩
    split_ifs
    · split
      next name port heq =>
        obtain ⟨heq, hcolon⟩ := hsplit.mp heq
        refine if_neg fun htaken => hport name port ?_
        simp only [Bool.and_eq_true, decide_eq_true_eq] at htaken
        exact ⟨by simpa using heq, hcolon, htaken.1, htaken.2, by simp⟩
      · rfl
    · rfl

/-- Brackets are taken off together with a port behind them. -/
theorem hostWithoutPort_of_bracketed (hhead : host.head? = some '[')
    (h : hostWithoutPort raw host = .ok inside) :
    ']' ∉ inside ∧ ∃ rest, '[' :: (inside ++ "]".toList ++ rest) = host := by
  unfold hostWithoutPort at h
  split at h
  next stripped =>
    split at h
    · cases h
    next inside' rest hsplit =>
      dsimp only at h
      split_ifs at h
      cases h
      obtain ⟨heq, hbracket⟩ := splitOnce_singleton_iff.mp hsplit
      exact ⟨hbracket, rest, congrArg _ heq⟩
  next hnot =>
    obtain ⟨stripped, rfl⟩ := head?_eq_some_iff.mp hhead
    exact absurd rfl (hnot stripped)

/-- The host is kept, or shortened at its brackets or its port. -/
theorem hostWithoutPort_eq_ok (h : hostWithoutPort raw host = .ok inside) :
    inside ⊆ host ∧ (inside = host ∧ host.head? ≠ some '[' ∧
      (∀ name port, ¬ PortIn host name port []) ∨ inside.length < host.length) := by
  by_cases hhead : host.head? = some '['
  · obtain ⟨-, rest, rfl⟩ := hostWithoutPort_of_bracketed hhead h
    refine ⟨by simp, .inr ?_⟩
    rw [length_cons, length_append, length_append]
    omega
  · rcases hostWithoutPort_of_unbracketed raw hhead with ⟨hport, hok⟩ | ⟨name, port, hin, hok⟩
    · cases hok.symm.trans h
      exact ⟨fun _ => id, .inl ⟨rfl, hhead, hport⟩⟩
    · cases hok.symm.trans h
      obtain ⟨rfl, -⟩ := hin
      exact ⟨by simp, .inr (by simp)⟩

/-- What normalizing does to a host that it accepts. -/
theorem normalizeNetworkRuleHost_eq_ok (h : normalizeNetworkRuleHost raw = .ok host) :
    ∃ inside, hostWithoutPort raw (trim raw) = .ok inside ∧
      host = toAsciiLowercase (trim (trimEndDots inside)) ∧ host ≠ [] ∧ '*' ∉ host ∧
      (∀ c ∈ host, isWhitespace c = false) ∧ ∀ c ∈ trim raw, c ≠ '/' ∧ c ≠ '?' ∧ c ≠ '#' := by
  unfold normalizeNetworkRuleHost at h
  dsimp only at h
  split at h
  · cases h
  split_ifs at h with hplain
  obtain ⟨inside, hinside, h⟩ := bind_eq_ok_iff.mp h
  split_ifs at h with hempty hstar hwhite
  cases h
  simp only [Bool.or_eq_true, not_or, contains_iff_mem] at hplain
  obtain ⟨⟨⟨-, hslash⟩, hquery⟩, hfragment⟩ := hplain
  refine ⟨inside, hinside, rfl, hempty, by simpa using hstar, by simpa using hwhite, ?_⟩
  rintro c hc
  exact ⟨ne_of_mem_of_not_mem hc hslash, ne_of_mem_of_not_mem hc hquery,
    ne_of_mem_of_not_mem hc hfragment⟩

theorem getLast?_ne_dot (h : host.length ≤ (trim (trimEndDots host)).length) :
    host.getLast? ≠ some '.' := by
  intro hlast
  obtain ⟨front, rfl⟩ := getLast?_eq_some_iff.mp hlast
  have hshort := length_trim_trimEndDots_le front
  rw [trimEndDots, rdropWhile_concat_pos _ _ _ rfl, length_append, length_singleton] at h
  rw [trimEndDots] at hshort
  omega

/-- A host in normal form is cut and trimmed only. -/
theorem normalizeNetworkRuleHost_eq_self_iff (hne : host ≠ []) (hstar : '*' ∉ host)
    (hwhite : ∀ c ∈ host, isWhitespace c = false)
    (hplain : ∀ c ∈ host, c ≠ '/' ∧ c ≠ '?' ∧ c ≠ '#') (hlower : toAsciiLowercase host = host) :
    normalizeNetworkRuleHost host = .ok host ↔ IsStripped host := by
  have htrim : trim host = host :=
    trim_eq_self (fun c hc => hwhite c (mem_of_mem_head? hc)) fun c hc =>
      hwhite c (mem_of_getLast? hc)
  constructor
  · intro h
    obtain ⟨inside, hinside, heq, -⟩ := normalizeNetworkRuleHost_eq_ok h
    rw [htrim] at hinside
    have hlength := congrArg length heq
    rw [length_toAsciiLowercase] at hlength
    have hle := length_trim_trimEndDots_le inside
    rcases (hostWithoutPort_eq_ok hinside).2 with ⟨rfl, hhead, hport⟩ | hlt
    · exact ⟨hhead, getLast?_ne_dot hlength.le, hport⟩
    · omega
  · rintro ⟨hhead, hdot, hport⟩
    have hscheme : (splitOnce "://".toList host).isSome = false := by
      rw [Bool.eq_false_iff]
      intro hsome
      obtain ⟨parts, hparts⟩ := isSome_iff_exists.mp hsome
      have happend := append_eq_of_splitOnce hparts
      exact (hplain '/' (by rw [← happend]; simp)).1 rfl
    have hdots : trimEndDots host = host := rdropWhile_eq_self_iff.mpr fun hnil hlast =>
      hdot (by simpa [getLast?_eq_some_getLast hnil] using hlast)
    have hkept : hostWithoutPort host host = .ok host := by
      rcases hostWithoutPort_of_unbracketed host hhead with ⟨-, hok⟩ | ⟨name, port, hin, -⟩
      · exact hok
      · exact absurd hin (hport name port)
    have hslash : host.contains '/' = false := by
      simpa using fun h => (hplain '/' h).1 rfl
    have hquery : host.contains '?' = false := by
      simpa using fun h => (hplain '?' h).2.1 rfl
    have hfragment : host.contains '#' = false := by
      simpa using fun h => (hplain '#' h).2.2 rfl
    unfold normalizeNetworkRuleHost
    rw [htrim, if_neg hne, hscheme, hslash, hquery, hfragment, hkept]
    change (if toAsciiLowercase (trim (trimEndDots host)) = [] then _ else _) = _
    rw [hdots, htrim, hlower, if_neg hne, if_neg (by simpa using hstar),
      if_neg (by simpa using hwhite)]

theorem trimStart_eq_self_of_append_eq_trim {rest : Text} (h : t ++ rest = trim raw) :
    trimStart t = t := by
  cases t with
  | nil => rfl
  | cons c t =>
    have hhead : (raw.dropWhile isWhitespace).head? = some c :=
      head?_trimEnd (congrArg head? h).symm
    have hblank := head?_dropWhile_not isWhitespace raw
    rw [hhead] at hblank
    exact trimStart_cons_of_not_whitespace hblank t

theorem hostText_of_unbracketed (hhead : (trim raw).head? ≠ some '[') :
    hostText raw = trim raw := by
  unfold hostText
  split
  next heq => simp [heq] at hhead
  · rfl

/-- The text that is trimmed last, and what the port adds to it. -/
theorem hostText_eq (h : hostWithoutPort raw (trim raw) = .ok inside) :
    hostText raw = trimStart inside ∧
        ((trim raw).head? = some '[' ∨ ∀ name port, ¬ PortIn (trimStart inside) name port []) ∨
      ∃ port, PortIn (hostText raw) (trimStart inside) port [] ∧ (trim raw).head? ≠ some '[' := by
  by_cases hhead : (trim raw).head? = some '['
  · obtain ⟨hbracket, rest, heq⟩ := hostWithoutPort_of_bracketed hhead h
    have hinside : ∀ c ∈ inside, decide (c ≠ ']') := fun c hc => by
      simpa using ne_of_mem_of_not_mem hc hbracket
    refine .inl ⟨?_, .inl hhead⟩
    rw [hostText, ← heq]
    change trimStart ((inside ++ "]".toList ++ rest).takeWhile (· ≠ ']')) = _
    rw [append_assoc, takeWhile_append_of_pos hinside]
    simp
  · rw [hostText_of_unbracketed hhead]
    rcases hostWithoutPort_of_unbracketed raw hhead with ⟨hport, hok⟩ | ⟨name, port, hin, hok⟩
    · cases hok.symm.trans h
      have hstart := trimStart_eq_self_of_append_eq_trim (append_nil (trim raw))
      rw [hstart]
      exact .inl ⟨rfl, .inr hport⟩
    · cases hok.symm.trans h
      have hstart := trimStart_eq_self_of_append_eq_trim
        ((append_assoc ..).symm.trans hin.eq_append)
      rw [hstart]
      exact .inr ⟨port, hin, hhead⟩

/-- The first pass takes off all there is just if the text has one layer. -/
theorem isStripped_iff_hasOneLayer (h : hostWithoutPort raw (trim raw) = .ok inside)
    (hne : trim (trimEndDots inside) ≠ [])
    (hwhite : ∀ c ∈ trim (trimEndDots inside), isWhitespace c = false) :
    IsStripped (trim (trimEndDots inside)) ↔ HasOneLayer raw := by
  rw [isStripped_iff hne hwhite]
  rcases hostText_eq h with ⟨htext, hport⟩ | ⟨port, hin, hhead⟩
  · rw [← htext] at hport ⊢
    constructor
    · rintro ⟨hbracket, hdot, hnone⟩
      exact ⟨hbracket, hdot, fun name port rest hin => absurd hin (hnone name port rest)⟩
    · rintro ⟨hbracket, hdot, hlast⟩
      refine ⟨hbracket, hdot, fun name port rest hin => ?_⟩
      obtain ⟨rfl, hhead⟩ := hlast name port rest hin
      exact hport.elim hhead fun hnone => hnone name port hin
  · have hnone : ∀ name port rest, ¬ PortIn (trimStart inside) name port rest := by
      rintro name port rest ⟨heq, -⟩
      exact hin.colon (by simp [← heq])
    have htext : hostText raw = trimStart inside ++ ':' :: port := by
      simpa using hin.eq_append.symm
    have hplain : ∀ c ∈ ':' :: port, isWhitespace c = false := by
      rintro c (_ | ⟨_, hc⟩)
      · rfl
      · exact (isPort_apart hin.digits hc).2.2
    have hdot := isChain_append_of_visible (t := trimStart inside)
      (R := fun c next => c = '.' → isWhitespace next = false) (fun _ _ h _ => h) hplain
    have hfirst : (trimStart inside ++ ':' :: port).head? = (trimStart inside).head? :=
      head?_append_of_ne_nil _ hin.named
    rw [← hdot, ← hfirst, ← htext]
    constructor
    · rintro ⟨hbracket, hdot, -⟩
      refine ⟨hbracket, hdot, fun name port' rest hin' => ⟨?_, hhead⟩⟩
      exact hin'.rest_eq_nil hin
    · rintro ⟨hbracket, hdot, -⟩
      exact ⟨hbracket, hdot, hnone⟩

/-- The rule that is written and read back names the host of the rule in memory, just if the
text that was added has one layer. -/
theorem normalizeNetworkRuleHost_idempotent_iff {raw host : Text}
    (h : normalizeNetworkRuleHost raw = .ok host) :
    normalizeNetworkRuleHost host = .ok host ↔ HasOneLayer raw := by
  obtain ⟨inside, hinside, rfl, hne, hstar, hwhite, hplain⟩ := normalizeNetworkRuleHost_eq_ok h
  rw [normalizeNetworkRuleHost_eq_self_iff hne hstar hwhite ?_ (toAsciiLowercase_idem _),
    isStripped_toAsciiLowercase]
  · refine isStripped_iff_hasOneLayer hinside (by simpa [toAsciiLowercase] using hne) ?_
    simpa [toAsciiLowercase, isWhitespace_toLower] using hwhite
  · intro c hc
    obtain ⟨d, hd, rfl⟩ := mem_map.mp hc
    have hraw : d ∈ trim raw := (hostWithoutPort_eq_ok hinside).1 (trim_trimEndDots_subset _ hd)
    have hcase : ∀ e, isCaseless e → (d.toLower ≠ e ↔ d ≠ e) := fun e he =>
      not_congr (toLower_eq_iff_of_isCaseless he d)
    rw [hcase _ (by decide), hcase _ (by decide), hcase _ (by decide)]
    exact hplain d hraw

/-- An address without its brackets is read as a host once more. -/
theorem bracketed_address_stays :
    normalizeNetworkRuleHost "[::1]:443".toList = .ok "::1".toList ∧
      (normalizeNetworkRuleHost "::1".toList = .ok "::1".toList ↔ HasOneLayer "[::1]:443".toList) :=
  ⟨rfl, normalizeNetworkRuleHost_idempotent_iff rfl⟩

/-- A port within brackets is kept at first and taken off on the second pass. -/
theorem bracketed_port_lost_on_reload :
    normalizeNetworkRuleHost "[example.com:443]".toList = .ok "example.com:443".toList ∧
      normalizeNetworkRuleHost "example.com:443".toList = .ok "example.com".toList :=
  ⟨rfl, rfl⟩

end Hosts

end Rexux.ExecPolicy
