import Mathlib.Data.List.Induction

/-!
# Every moment of a run

What holds at every moment of a run of steps is settled step by step, in the state before
each of them.
-/

namespace Foundation

open List

variable {α : Type*}

/-- A step may depend on all that held before it. -/
theorem forall_prefix_iff_of_history {P : List α → Prop} {Q : List α → α → Prop} {steps : List α}
    (hnil : P [])
    (hstep : ∀ done step, done ++ [step] <+: steps → (∀ before, before <+: done → P before) →
      (P (done ++ [step]) ↔ Q done step)) :
    (∀ done, done <+: steps → P done) ↔ ∀ done step, done ++ [step] <+: steps → Q done step := by
  constructor
  · intro h done step hdone
    have hbefore : done <+: steps := (prefix_append done [step]).trans hdone
    exact (hstep done step hdone fun before h' => h before (h'.trans hbefore)).mp (h _ hdone)
  · intro h done hdone
    suffices hall : ∀ before, before <+: done → P before from hall done prefix_rfl
    induction done using reverseRecOn with
    | nil =>
      intro before hbefore
      rw [prefix_nil.mp hbefore]
      exact hnil
    | append_singleton done step ih =>
      have hall := ih ((prefix_append done [step]).trans hdone)
      intro before hbefore
      rcases prefix_concat_iff.mp hbefore with rfl | hbefore
      · exact (hstep done step hdone hall).mpr (h done step hdone)
      · exact hall before hbefore

/-- A property holds along a run exactly if no step breaks it. -/
theorem forall_prefix_iff {P : List α → Prop} {Q : List α → α → Prop} (hnil : P [])
    (hstep : ∀ done step, P done → (P (done ++ [step]) ↔ Q done step)) (steps : List α) :
    (∀ done, done <+: steps → P done) ↔ ∀ done step, done ++ [step] <+: steps → Q done step :=
  forall_prefix_iff_of_history hnil fun done step _ h => hstep done step (h done prefix_rfl)

theorem forall_concat_prefix_nil {P : List α → α → Prop} :
    (∀ done a, done ++ [a] <+: [] → P done a) ↔ True := by
  simp

theorem forall_concat_prefix_cons {P : List α → α → Prop} {first : α} {rest : List α} :
    (∀ done a, done ++ [a] <+: first :: rest → P done a) ↔
      P [] first ∧ ∀ done a, done ++ [a] <+: rest → P (first :: done) a := by
  constructor
  · intro h
    refine ⟨h [] first (prefix_append [first] rest), fun done a hdone => ?_⟩
    exact h (first :: done) a (cons_prefix_cons.mpr ⟨rfl, hdone⟩)
  · rintro ⟨hfirst, hrest⟩ done a hdone
    cases done with
    | nil =>
      obtain ⟨rfl, -⟩ := cons_prefix_cons.mp hdone
      exact hfirst
    | cons other done =>
      obtain ⟨rfl, hpre⟩ := cons_prefix_cons.mp hdone
      exact hrest done a hpre

end Foundation
