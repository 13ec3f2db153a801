import Mathlib.Tactic.Common

/-!
# Fallible computations

The few facts about `Except` that a proof about a fallible program needs: how a
successful bind decomposes, and how an invariant travels along a monadic fold,
also where the computation keeps its state when it fails.
-/

namespace Foundation

universe u v

variable {ε : Type v} {α β : Type u}

@[simp] theorem pure_eq_ok (a : α) : (pure a : Except ε α) = .ok a := rfl

@[simp] theorem throw_eq_error (e : ε) : (throw e : Except ε α) = .error e := rfl

@[simp] theorem ok_bind (a : α) (f : α → Except ε β) : (Except.ok a >>= f) = f a := rfl

@[simp] theorem error_bind (e : ε) (f : α → Except ε β) :
    (Except.error e >>= f) = Except.error e := rfl

@[simp] theorem map_ok (f : α → β) (a : α) :
    Except.map f (Except.ok a : Except ε α) = Except.ok (f a) := rfl

@[simp] theorem map_error (f : α → β) (e : ε) :
    Except.map f (Except.error e) = Except.error e := rfl

theorem bind_eq_ok_iff {x : Except ε α} {f : α → Except ε β} {b : β} :
    (x >>= f) = .ok b ↔ ∃ a, x = .ok a ∧ f a = .ok b := by
  cases x with
  | error | ok => simp

theorem toOption_bind (x : Except ε α) (f : α → Except ε β) :
    (x >>= f).toOption = x.toOption.bind fun a => (f a).toOption := by
  cases x with
  | error | ok => rfl

theorem toOption_bind_congr {x y : Except ε α} (h : x.toOption = y.toOption) (f : α → Except ε β) :
    (x >>= f).toOption = (y >>= f).toOption := by
  rw [toOption_bind, toOption_bind, h]

theorem map_bind_congr {α' β' γ δ : Type u} {x : Except ε α} {x' : Except ε α'} {p : α → γ}
    {p' : α' → γ} (h : x.map p = x'.map p') {f : α → Except ε β} {f' : α' → Except ε β'}
    {q : β → δ} {q' : β' → δ} (hf : ∀ a a', p a = p' a' → (f a).map q = (f' a').map q') :
    (x >>= f).map q = (x' >>= f').map q' := by
  rcases x with e | a <;> rcases x' with e' | a' <;> simp at h ⊢
  · exact h
  · exact hf a a' h

theorem toOption_eq_some_iff {x : Except ε α} {a : α} : x.toOption = some a ↔ x = .ok a := by
  cases x <;> simp [Except.toOption]

section Stateful

variable {ε σ α β : Type u}

theorem run_bind_eq_ok_iff {x : EStateM ε σ α} {f : α → EStateM ε σ β} {s s' : σ} {b : β} :
    (x >>= f) s = .ok b s' ↔ ∃ a t, x s = .ok a t ∧ f a t = .ok b s' := by
  show EStateM.bind x f s = _ ↔ _
  unfold EStateM.bind
  cases x s with
  | ok | error => simp

theorem run_get_bind (f : σ → EStateM ε σ β) (s : σ) : (get >>= f) s = f s s := rfl

/-- The invariant rule for loops with state and failure. -/
theorem foldlM_keeps {step : β → α → EStateM ε σ β} {items : List α} (kept : β → σ → Prop)
    (hstep : ∀ item ∈ items, ∀ b s b' s', kept b s → step b item s = .ok b' s' → kept b' s')
    {b b' : β} {s s' : σ} (hstart : kept b s) (hrun : items.foldlM step b s = .ok b' s') :
    kept b' s' := by
  induction items generalizing b s with
  | nil =>
    cases hrun
    exact hstart
  | cons item items ih =>
    rw [List.foldlM_cons, run_bind_eq_ok_iff] at hrun
    obtain ⟨c, t, hitem, hrest⟩ := hrun
    refine ih (fun other hother => hstep other (List.mem_cons_of_mem _ hother)) ?_ hrest
    exact hstep item List.mem_cons_self b s c t hstart hitem

end Stateful

end Foundation
