import Mathlib.Data.List.Infix
import Mathlib.Data.Prod.Lex

/-!
# Most specific rules

A rule gives a level to the subtree below a path, where paths are lists of
components.  Rules may be nested: a path is decided by the deepest rule above
it, and by the highest level among the rules at that place.

`Decides` states this choice without an order of evaluation.  It is determined
by the set of rules, and the rule that decides a path also decides every path
between the two.  Programs make the choice by maximising a key; `maxByKey` is
that loop and `decides_of_maxByKey` connects it to the relation.
-/

namespace Foundation

open List

section MaxByKey

variable {β κ : Type*} [LinearOrder κ]

/-- The last of the items with the largest key. -/
def maxByKey (key : β → κ) : List β → Option β
  | [] => none
  | x :: xs =>
    match maxByKey key xs with
    | none => some x
    | some y => if key x ≤ key y then some y else some x

theorem maxByKey_eq_none_iff (key : β → κ) (l : List β) : maxByKey key l = none ↔ l = [] := by
  cases l with
  | nil => simp [maxByKey]
  | cons x xs =>
    simp only [maxByKey]
    split
    · simp
    · split <;> simp

theorem maxByKey_spec {key : β → κ} {l : List β} {m : β} (h : maxByKey key l = some m) :
    m ∈ l ∧ ∀ x ∈ l, key x ≤ key m := by
  induction l generalizing m with
  | nil => cases h
  | cons x xs ih =>
    simp only [maxByKey] at h
    split at h
    next hnone =>
      obtain rfl := Option.some.inj h
      simp [(maxByKey_eq_none_iff key xs).mp hnone]
    next y hsome =>
      obtain ⟨hmem, hmax⟩ := ih hsome
      split at h
      next hle =>
        obtain rfl := Option.some.inj h
        exact ⟨mem_cons_of_mem _ hmem, forall_mem_cons.mpr ⟨hle, hmax⟩⟩
      next hgt =>
        obtain rfl := Option.some.inj h
        refine ⟨mem_cons_self, forall_mem_cons.mpr ⟨le_rfl, ?_⟩⟩
        intro z hz
        exact (hmax z hz).trans (le_of_not_ge hgt)

end MaxByKey

theorem no_rule_of_maxByKey {α β κ M : Type*} [LinearOrder κ] {path : List α} {candidates : List β}
    {rule : β → List α × M} {applies : β → Bool} {key : β → κ}
    (happlies : ∀ c ∈ candidates, applies c ↔ (rule c).1 <+: path)
    (h : maxByKey key (candidates.filter applies) = none) :
    ∀ r ∈ candidates.map rule, ¬ r.1 <+: path := by
  intro r hr hbegins
  obtain ⟨c, hc, rfl⟩ := mem_map.mp hr
  have hempty := (maxByKey_eq_none_iff key _).mp h
  have hmem := mem_filter.mpr ⟨hc, (happlies c hc).mpr hbegins⟩
  rw [hempty] at hmem
  cases hmem

section Rules

variable {α L : Type*} [LinearOrder L]

/-- The deepest root above the path, with the strongest of its levels. -/
structure Decides (rules : List (List α × L)) (path root : List α) (level : L) : Prop where
  mem : (root, level) ∈ rules
  above : root <+: path
  deepest : ∀ rule ∈ rules, rule.1 <+: path → rule.1 <+: root
  strongest : ∀ rule ∈ rules, rule.1 = root → rule.2 ≤ level

variable {rules rules' : List (List α × L)} {path root root' : List α} {level level' : L}

theorem prefix_antisymm {l l' : List α} (h : l <+: l') (h' : l' <+: l) : l = l' :=
  h.eq_of_length_le h'.length_le

section

variable (h : Decides rules path root level)
include h

/-- The deciding root is unique. -/
theorem Decides.root_unique
    (h' : Decides rules path root' level') : root = root' :=
  prefix_antisymm (h'.deepest _ h.mem h.above) (h.deepest _ h'.mem h'.above)

theorem Decides.level_unique (h' : Decides rules path root' level') : level = level' := by
  have hroot := h.root_unique h'
  subst hroot
  exact le_antisymm (h'.strongest _ h.mem rfl) (h.strongest _ h'.mem rfl)

theorem Decides.of_mem_iff (hrules : ∀ rule, rule ∈ rules ↔ rule ∈ rules') :
    Decides rules' path root level where
  mem := (hrules _).mp h.mem
  above := h.above
  deepest rule hrule := h.deepest rule ((hrules rule).mpr hrule)
  strongest rule hrule := h.strongest rule ((hrules rule).mpr hrule)

omit h in
theorem decides_filter_iff {keep : List α × L → Bool}
    (hkeep : ∀ rule ∈ rules, rule.1 <+: path → keep rule) :
    Decides (rules.filter keep) path root level ↔ Decides rules path root level := by
  constructor
  · intro h
    refine ⟨(mem_filter.mp h.mem).1, h.above, ?_, ?_⟩
    · intro rule hrule habove
      exact h.deepest rule (mem_filter.mpr ⟨hrule, hkeep rule hrule habove⟩) habove
    · intro rule hrule hroot
      have habove : rule.1 <+: path := hroot ▸ h.above
      exact h.strongest rule (mem_filter.mpr ⟨hrule, hkeep rule hrule habove⟩) hroot
  · intro h
    refine ⟨mem_filter.mpr ⟨h.mem, hkeep _ h.mem h.above⟩, h.above, ?_, ?_⟩
    · intro rule hrule
      exact h.deepest rule (mem_filter.mp hrule).1
    · intro rule hrule
      exact h.strongest rule (mem_filter.mp hrule).1

/-- A rule decides every path between its root and a path that it decides. -/
theorem Decides.restrict {between : List α} (hroot : root <+: between)
    (hpath : between <+: path) : Decides rules between root level where
  mem := h.mem
  above := hroot
  deepest rule hrule habove := h.deepest rule hrule (habove.trans hpath)
  strongest := h.strongest

/-- A rule goes on deciding below a path as long as no deeper root comes. -/
theorem Decides.extend {below : List α}
    (hbelow : path <+: below) (hnone : ∀ rule ∈ rules, rule.1 <+: below → rule.1 <+: path) :
    Decides rules below root level where
  mem := h.mem
  above := h.above.trans hbelow
  deepest rule hrule habove := h.deepest rule hrule (hnone rule hrule habove)
  strongest := h.strongest

end

/-- Searching for the deepest root finds the rule that decides. -/
theorem decides_of_maxByKey {β : Type*} {candidates : List β} {rule : β → List α × L}
    {applies : β → Bool} {key : β → ℕ ×ₗ L} {chosen : β}
    (happlies : ∀ c ∈ candidates, applies c ↔ (rule c).1 <+: path)
    (hkey : ∀ c ∈ candidates, key c = toLex ((rule c).1.length, (rule c).2))
    (h : maxByKey key (candidates.filter applies) = some chosen) :
    Decides (candidates.map rule) path (rule chosen).1 (rule chosen).2 := by
  obtain ⟨hmem, hmax⟩ := maxByKey_spec h
  obtain ⟨hchosen, happlied⟩ := mem_filter.mp hmem
  have habove := (happlies chosen hchosen).mp happlied
  have hle : ∀ c ∈ candidates, (rule c).1 <+: path → toLex ((rule c).1.length, (rule c).2) ≤
        toLex ((rule chosen).1.length, (rule chosen).2) := by
    intro c hc hbegins
    rw [← hkey c hc, ← hkey chosen hchosen]
    exact hmax c (mem_filter.mpr ⟨hc, (happlies c hc).mpr hbegins⟩)
  refine ⟨mem_map_of_mem hchosen, habove, ?_, ?_⟩
  · intro r hr hbegins
    obtain ⟨c, hc, rfl⟩ := mem_map.mp hr
    have hlength : (rule c).1.length ≤ (rule chosen).1.length := by
      rcases Prod.Lex.toLex_le_toLex.mp (hle c hc hbegins) with hlt | ⟨heq, -⟩
      · exact hlt.le
      · exact heq.le
    exact prefix_of_prefix_length_le hbegins habove hlength
  · intro r hr hroot
    obtain ⟨c, hc, rfl⟩ := mem_map.mp hr
    have hbegins : (rule c).1 <+: path := hroot ▸ habove
    rcases Prod.Lex.toLex_le_toLex.mp (hle c hc hbegins) with hlt | ⟨-, hlevel⟩
    · exact absurd hlt (by simp [hroot])
    · exact hlevel

theorem exists_decides {rule : List α × L} (hmem : rule ∈ rules)
    (habove : rule.1 <+: path) : ∃ root level, Decides rules path root level := by
  classical
  cases hmax : maxByKey (fun r : List α × L => toLex (r.1.length, r.2))
      (rules.filter fun r => decide (r.1 <+: path)) with
  | none =>
    have hnone := no_rule_of_maxByKey (fun r _ => decide_eq_true_iff) hmax rule
      (by simpa using hmem)
    exact absurd habove hnone
  | some chosen =>
    have hdecides : Decides (rules.map id) path (id chosen).1 (id chosen).2 :=
      decides_of_maxByKey (fun r _ => decide_eq_true_iff) (fun r _ => rfl) hmax
    rw [map_id] at hdecides
    exact ⟨_, _, hdecides⟩

end Rules

end Foundation
