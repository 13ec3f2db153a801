import Mathlib.Data.List.Induction
import Mathlib.Data.List.Nodup

/-!
# Plans and sequential runs

A store maps keys to optional values.  A list of operations can be read in two
ways: as a plan, in which every operation is evaluated in the initial store, or
as a run, in which every operation sees what the earlier ones have done.

When the operations have distinct sources, the two readings agree exactly when
no move interferes with another operation through its destination.  That is
what `Independent` says, and `predicted_iff_independent` is the result.
-/

namespace Foundation

open List Function Option

/-- An operation on a store.  Edits and moves derive the new value from the old
one, and may fail to. -/
inductive StoreOp (κ α : Type*) where
  | add (key : κ) (value : α)
  | delete (key : κ)
  | edit (key : κ) (derive : α → Option α)
  | move (key destination : κ) (derive : α → Option α)

open StoreOp

namespace StoreOp

variable {κ α : Type*}

/-- The key that the operation reads or writes. -/
def source : StoreOp κ α → κ
  | .add key _ => key
  | .delete key => key
  | .edit key _ => key
  | .move key _ _ => key

/-- The key that has a value afterwards. -/
def target : StoreOp κ α → Option κ
  | .add key _ => some key
  | .delete _ => none
  | .edit key _ => some key
  | .move _ destination _ => some destination

/-- The key that has none afterwards. -/
def removes : StoreOp κ α → Option κ
  | .add _ _ => none
  | .delete key => some key
  | .edit _ _ => none
  | .move key _ _ => some key

/-- The operation writes or removes the key. -/
def Touches (op : StoreOp κ α) (key : κ) : Prop := op.target = some key ∨ op.removes = some key

/-- The value that the operation is planned to write, from the initial store. -/
def planned (initial : κ → Option α) : StoreOp κ α → Option α
  | .add _ value => some value
  | .delete _ => none
  | .edit key derive => (initial key).bind derive
  | .move key _ derive => (initial key).bind derive

/-- The operation can be planned from the initial store. -/
def Plannable (initial : κ → Option α) : StoreOp κ α → Prop
  | .delete key => (initial key).isSome
  | op => (op.planned initial).isSome

variable {op : StoreOp κ α}

theorem source_eq_of_removes {key : κ} (h : op.removes = some key) : op.source = key := by
  cases op <;> simp_all [removes, source]

theorem source_eq_or_move_of_touches {key : κ} (h : op.Touches key) :
    op.source = key ∨ ∃ k derive, op = .move k key derive := by
  cases op <;> simp_all [Touches, target, removes, source]
  tauto

theorem planned_congr {initial store : κ → Option α} (h : store op.source = initial op.source) :
    op.planned store = op.planned initial := by
  cases op <;> simp_all [planned, source]

theorem plannable_congr {initial store : κ → Option α}
    (h : store op.source = initial op.source) (hop : op.Plannable initial) :
    op.Plannable store := by
  cases op <;> simp_all [Plannable, planned, source]

end StoreOp

variable {κ α : Type*}

variable (initial : κ → Option α) (ops : List (StoreOp κ α))

/-- The operations have distinct sources and can each be carried out in the
initial store. -/
structure Accepted : Prop where
  distinct : (ops.map StoreOp.source).Nodup
  plannable : ∀ op ∈ ops, op.Plannable initial

/-- Every operation has its planned effect in the final store, and nothing else
has changed. -/
structure Predicts (final : κ → Option α) : Prop where
  written : ∀ op ∈ ops, ∀ key, op.target = some key → final key = op.planned initial
  removed : ∀ op ∈ ops, ∀ key, op.removes = some key → final key = none
  unchanged : ∀ key, (∀ op ∈ ops, ¬ op.Touches key) → final key = initial key

/-- The destination of a move is not removed, not even by the move itself. -/
def DestinationsKept : Prop :=
  ∀ key destination derive, .move key destination derive ∈ ops →
    ∀ op ∈ ops, op.removes ≠ some destination

/-- Everything written to the destination of a move is the same value. -/
def DestinationsAgree : Prop :=
  ∀ key destination derive, .move key destination derive ∈ ops →
    ∀ op ∈ ops, op.target = some destination → op.planned initial = (initial key).bind derive

/-- No move interferes with another operation through its destination. -/
structure Independent : Prop where
  kept : DestinationsKept ops
  same : DestinationsAgree initial ops
  /-- An edit of the destination that follows the move can be carried out on
  the moved value, and leaves it alone unless another move follows. -/
  rederived : ∀ before after destination edit,
    ops = before ++ .edit destination edit :: after →
      ∀ key derive, .move key destination derive ∈ before →
        ∃ value, ((initial key).bind derive).bind edit = some value ∧
          ((initial key).bind derive = some value ∨
            ∃ key' derive', .move key' destination derive' ∈ after)

variable {initial : κ → Option α} {op op' : StoreOp κ α} {ops : List (StoreOp κ α)}

theorem Accepted.eq_of_source_eq (haccepted : Accepted initial ops)
    (hop : op ∈ ops) (hop' : op' ∈ ops) (h : op.source = op'.source) : op = op' :=
  inj_on_of_nodup_map haccepted.distinct hop hop' h

variable {after before : List (StoreOp κ α)}

theorem Accepted.source_ne (haccepted : Accepted initial (before ++ op :: after)) :
    ∀ o ∈ before ++ after, o.source ≠ op.source := by
  have hdistinct := haccepted.distinct
  rw [map_append, map_cons, nodup_middle, nodup_cons] at hdistinct
  intro o ho heq
  apply hdistinct.1
  rw [← heq, ← map_append]
  exact mem_map_of_mem ho

variable {key : κ}

theorem Accepted.not_touches_of_removes (haccepted : Accepted initial (before ++ op :: after))
    (hkept : DestinationsKept (before ++ op :: after)) (h : op.removes = some key) :
    ∀ o ∈ before ++ after, ¬ o.Touches key := by
  intro o ho htouches
  obtain hsource | ⟨k, derive, rfl⟩ := source_eq_or_move_of_touches htouches
  · exact haccepted.source_ne o ho (hsource.trans (source_eq_of_removes h).symm)
  · have hmem : .move k key derive ∈ before ++ op :: after := by
      simp only [mem_append] at ho ⊢
      tauto
    exact hkept k key derive hmem op (by simp) h

theorem exists_last_touches (h : ∃ op ∈ ops, op.Touches key) :
    ∃ before op after, ops = before ++ op :: after ∧ op.Touches key ∧
      ∀ o ∈ after, ¬ o.Touches key := by
  induction ops with
  | nil => simp at h
  | cons op ops ih =>
    by_cases hops : ∃ o ∈ ops, o.Touches key
    · obtain ⟨before, o, after, rfl, ho, hafter⟩ := ih hops
      exact ⟨op :: before, o, after, rfl, ho, hafter⟩
    · push Not at hops
      obtain ⟨o, ho, htouches⟩ := h
      obtain rfl | ho := mem_cons.mp ho
      · exact ⟨[], o, ops, rfl, htouches, hops⟩
      · exact absurd htouches (hops o ho)

theorem Independent.planned_eq_of_target
    (h : Independent initial ops) (haccepted : Accepted initial ops)
    (hop : op ∈ ops) (hop' : op' ∈ ops)
    (htarget : op.target = some key) (htarget' : op'.target = some key) :
    op.planned initial = op'.planned initial := by
  obtain hsource | ⟨k, derive, rfl⟩ := source_eq_or_move_of_touches (Or.inl htarget)
  · obtain hsource' | ⟨k, derive, rfl⟩ := source_eq_or_move_of_touches (Or.inl htarget')
    · rw [haccepted.eq_of_source_eq hop hop' (hsource.trans hsource'.symm)]
    · exact h.same k key derive hop' op hop htarget
  · exact (h.same k key derive hop op' hop' htarget').symm

theorem Independent.removes_ne_of_target
    (h : Independent initial ops) (haccepted : Accepted initial ops)
    (hop : op ∈ ops) (hop' : op' ∈ ops) (htarget : op.target = some key) :
    op'.removes ≠ some key := by
  intro hremoves
  have hmove : ∃ k derive, .move k key derive ∈ ops := by
    obtain hsource | ⟨k, derive, rfl⟩ := source_eq_or_move_of_touches (Or.inl htarget)
    · have heq := haccepted.eq_of_source_eq hop hop'
        (hsource.trans (source_eq_of_removes hremoves).symm)
      subst heq
      cases op with
      | move k destination derive =>
        rw [target, some.injEq] at htarget
        subst htarget
        exact ⟨k, derive, hop⟩
      | add | edit => simp [removes] at hremoves
      | delete k => simp [target] at htarget
    · exact ⟨k, derive, hop⟩
  obtain ⟨k, derive, hmove⟩ := hmove
  exact h.kept k key derive hmove op' hop' hremoves

variable {final : κ → Option α}

theorem Predicts.destinationsKept
    (h : Predicts initial ops final) (haccepted : Accepted initial ops) : DestinationsKept ops := by
  intro key destination derive hmove op hop hremoves
  have hsome : ((initial key).bind derive).isSome := haccepted.plannable _ hmove
  have hwritten := h.written _ hmove destination rfl
  rw [h.removed op hop destination hremoves] at hwritten
  rw [planned] at hwritten
  rw [← hwritten] at hsome
  exact absurd hsome (by simp)

theorem Predicts.destinationsAgree (h : Predicts initial ops final) :
    DestinationsAgree initial ops := by
  intro key destination derive hmove op hop htarget
  rw [← h.written op hop destination htarget]
  exact h.written _ hmove destination rfl

theorem independent_of_fresh_destinations
    (h : ∀ key destination derive, .move key destination derive ∈ ops →
      key ≠ destination ∧ ∀ op ∈ ops, op.Touches destination → op = .move key destination derive) :
    Independent initial ops where
  kept := by
    intro key destination derive hmove op hop hremoves
    obtain ⟨hne, hfresh⟩ := h key destination derive hmove
    rw [hfresh op hop (Or.inr hremoves)] at hremoves
    exact hne (some.inj hremoves)
  same := by
    intro key destination derive hmove op hop htarget
    rw [(h key destination derive hmove).2 op hop (Or.inl htarget)]
    rfl
  rederived := by
    rintro before after destination edit rfl key derive hmove
    have hfresh := (h key destination derive (mem_append_left _ hmove)).2
      (.edit destination edit) (by simp) (Or.inl rfl)
    cases hfresh

/-! ## What one operation does -/

variable [DecidableEq κ]

namespace StoreOp

/-- One operation; it fails if what it needs is not there. -/
def step (store : κ → Option α) : StoreOp κ α → Option (κ → Option α)
  | .add key value => some (update store key (some value))
  | .delete key => (store key).map fun _ => update store key none
  | .edit key derive => ((store key).bind derive).map fun value => update store key (some value)
  | .move key destination derive =>
    ((store key).bind derive).map fun value =>
      update (update store destination (some value)) key none

variable {key : κ} {next store : κ → Option α} {op : StoreOp κ α}

section

variable (hstep : op.step store = some next)
include hstep

theorem step_of_not_touches (h : ¬ op.Touches key) : next key = store key := by
  cases op with
  | add k value =>
    simp only [Touches, target, removes, some.injEq, reduceCtorEq, or_false] at h
    simp only [step, some.injEq] at hstep
    rw [← hstep, update_of_ne (Ne.symm h)]
  | delete k =>
    simp only [Touches, target, removes, some.injEq, reduceCtorEq, false_or] at h
    obtain ⟨value, -, rfl⟩ := map_eq_some_iff.mp hstep
    rw [update_of_ne (Ne.symm h)]
  | edit k derive =>
    simp only [Touches, target, removes, some.injEq, reduceCtorEq, or_false] at h
    obtain ⟨value, -, rfl⟩ := map_eq_some_iff.mp hstep
    rw [update_of_ne (Ne.symm h)]
  | move k destination derive =>
    simp only [Touches, target, removes, some.injEq, not_or] at h
    obtain ⟨value, -, rfl⟩ := map_eq_some_iff.mp hstep
    rw [update_of_ne (Ne.symm h.2), update_of_ne (Ne.symm h.1)]

theorem step_of_removes (h : op.removes = some key) : next key = none := by
  cases op with
  | add | edit => simp [removes] at h
  | delete k | move k destination derive =>
    obtain ⟨value, -, rfl⟩ := map_eq_some_iff.mp hstep
    simp_all [removes]

/-- What an operation leaves at its target is what it plans in the store it
meets there, unless it moves a key to itself. -/
theorem step_of_target (h : op.target = some key) (hself : op.removes ≠ some key) :
    next key = op.planned store := by
  cases op with
  | add k value =>
    simp only [step, some.injEq] at hstep
    simp_all [target, planned, ← hstep]
  | delete k => simp [target] at h
  | edit k derive =>
    obtain ⟨value, hvalue, rfl⟩ := map_eq_some_iff.mp hstep
    simp_all [target, planned]
  | move k destination derive =>
    obtain ⟨value, hvalue, rfl⟩ := map_eq_some_iff.mp hstep
    simp only [target, removes, some.injEq, ne_eq] at h hself
    subst h
    rw [update_of_ne (Ne.symm hself), update_self, planned, hvalue]

end

theorem step_of_plannable (h : op.Plannable store) : ∃ next, op.step store = some next := by
  cases op with
  | add k value => exact ⟨_, rfl⟩
  | delete k =>
    obtain ⟨value, hvalue⟩ := isSome_iff_exists.mp h
    exact ⟨_, by rw [step, hvalue]; rfl⟩
  | edit k derive | move k destination derive =>
    obtain ⟨value, hvalue⟩ := isSome_iff_exists.mp h
    rw [planned] at hvalue
    exact ⟨_, by rw [step, hvalue]; rfl⟩

end StoreOp

/-- The operations one after the other. -/
def runOps (ops : List (StoreOp κ α)) (store : κ → Option α) : Option (κ → Option α) :=
  ops.foldlM step store

@[simp] theorem runOps_nil (store : κ → Option α) : runOps [] store = some store := rfl

variable (op ops) in
theorem runOps_cons (store : κ → Option α) :
    runOps (op :: ops) store = (op.step store).bind (runOps ops) := rfl

theorem runOps_append (before after : List (StoreOp κ α)) (store : κ → Option α) :
    runOps (before ++ after) store = (runOps before store).bind (runOps after) :=
  foldlM_append

/-- A key that no operation touches keeps its value. -/
theorem runOps_of_not_touches {store : κ → Option α}
    (hrun : runOps ops store = some final) (h : ∀ op ∈ ops, ¬ op.Touches key) :
    final key = store key := by
  induction ops generalizing store with
  | nil =>
    rw [runOps_nil, some.injEq] at hrun
    rw [hrun]
  | cons op ops ih =>
    rw [runOps_cons, bind_eq_some_iff] at hrun
    obtain ⟨next, hstep, hrun⟩ := hrun
    rw [ih hrun fun o ho => h o (mem_cons_of_mem op ho)]
    exact step_of_not_touches hstep (h op mem_cons_self)

theorem exists_of_runOps_append_cons
    {store : κ → Option α} (hrun : runOps (before ++ op :: after) store = some final) :
    ∃ s t, runOps before store = some s ∧ op.step s = some t ∧ runOps after t = some final := by
  rw [runOps_append, bind_eq_some_iff] at hrun
  obtain ⟨s, hbefore, hrun⟩ := hrun
  rw [runOps_cons, bind_eq_some_iff] at hrun
  obtain ⟨t, hstep, hafter⟩ := hrun
  exact ⟨s, t, hbefore, hstep, hafter⟩

/-! ## Plans and runs agree -/

variable {s : κ → Option α}

theorem Accepted.source_value_of_removes (haccepted : Accepted initial (before ++ op :: after))
    (hkept : DestinationsKept (before ++ op :: after)) (hrun : runOps before initial = some s)
    (h : op.removes = some key) : s op.source = initial op.source := by
  rw [source_eq_of_removes h]
  apply runOps_of_not_touches hrun
  intro o ho
  exact haccepted.not_touches_of_removes hkept h o (mem_append_left after ho)

/-- The destination of a move keeps the planned value while no operation starts from it. -/
theorem Accepted.moved_value {done rest : List (StoreOp κ α)}
    (haccepted : Accepted initial (done ++ rest)) (hkept : DestinationsKept (done ++ rest))
    (hsame : DestinationsAgree initial (done ++ rest)) (hrun : runOps done initial = some s)
    {destination : κ} {derive : α → Option α} (hmove : .move key destination derive ∈ done)
    (hsource : ∀ op ∈ done, op.source ≠ destination) :
    s destination = (initial key).bind derive := by
  induction done using List.reverseRecOn generalizing rest s with
  | nil => simp at hmove
  | append_singleton done op ih =>
    obtain ⟨t, u, hdone, hstep, hlast⟩ := exists_of_runOps_append_cons hrun
    rw [runOps_nil, some.injEq] at hlast
    subst hlast
    have hall : done ++ [op] ++ rest = done ++ op :: rest := by simp
    rw [hall] at haccepted hkept hsame
    by_cases htouches : op.Touches destination
    · -- The last operation is itself a move to the destination.
      obtain hop | ⟨k, derive', rfl⟩ := source_eq_or_move_of_touches htouches
      · exact absurd hop (hsource op (by simp))
      · have hself := hkept k destination derive' (by simp)
          (.move k destination derive') (by simp)
        have hvalue := haccepted.source_value_of_removes hkept hdone rfl
        have hmem : .move key destination derive ∈ done ++ .move k destination derive' :: rest := by
          simp only [mem_append, mem_cons] at hmove ⊢
          tauto
        rw [step_of_target hstep rfl hself, planned_congr hvalue]
        exact hsame key destination derive hmem _ (by simp) rfl
    · rw [step_of_not_touches hstep htouches]
      have hbefore : .move key destination derive ∈ done := by
        rw [mem_append, mem_singleton] at hmove
        refine hmove.resolve_right ?_
        rintro rfl
        exact htouches (Or.inl rfl)
      exact ih haccepted hkept hsame hdone hbefore fun o ho => hsource o (mem_append_left _ ho)

theorem Accepted.edited_value {edit : α → Option α}
    (haccepted : Accepted initial (before ++ .edit key edit :: after))
    (hkept : DestinationsKept (before ++ .edit key edit :: after))
    (hsame : DestinationsAgree initial (before ++ .edit key edit :: after))
    (hrun : runOps before initial = some s) :
    s key = initial key ∨
      ∃ k derive, .move k key derive ∈ before ∧ s key = (initial k).bind derive := by
  have hsource : ∀ op ∈ before, op.source ≠ key := fun op hop =>
    haccepted.source_ne op (mem_append_left after hop)
  by_cases htouches : ∃ op ∈ before, op.Touches key
  · obtain ⟨op, hop, htouches⟩ := htouches
    obtain h | ⟨k, derive, rfl⟩ := source_eq_or_move_of_touches htouches
    · exact absurd h (hsource op hop)
    · exact Or.inr ⟨k, derive, hop, haccepted.moved_value hkept hsame hrun hop hsource⟩
  · push Not at htouches
    exact Or.inl (runOps_of_not_touches hrun htouches)

/-- Among independent operations each finds what it was planned on. -/
theorem Independent.step_succeeds (h : Independent initial (before ++ op :: after))
    (haccepted : Accepted initial (before ++ op :: after)) (hrun : runOps before initial = some s) :
    ∃ next, op.step s = some next := by
  have hplannable := haccepted.plannable op (by simp)
  apply step_of_plannable
  cases op with
  | add key value => rfl
  | delete key | move key destination derive =>
    have hvalue := haccepted.source_value_of_removes h.kept hrun rfl
    exact plannable_congr hvalue hplannable
  | edit key edit =>
    obtain hvalue | ⟨k, derive, hmove, hvalue⟩ := haccepted.edited_value h.kept h.same hrun
    · exact plannable_congr hvalue hplannable
    · obtain ⟨value, hedit, -⟩ := h.rederived before after key edit rfl k derive hmove
      simp only [StoreOp.Plannable, planned]
      rw [hvalue, hedit]
      rfl

/-- Independent operations all succeed. -/
theorem Independent.run_succeeds {done rest : List (StoreOp κ α)}
    (h : Independent initial (done ++ rest)) (haccepted : Accepted initial (done ++ rest)) :
    ∃ s, runOps done initial = some s := by
  induction done using List.reverseRecOn generalizing rest with
  | nil => exact ⟨initial, rfl⟩
  | append_singleton done op ih =>
    rw [append_assoc] at h haccepted
    obtain ⟨s, hs⟩ := ih h haccepted
    obtain ⟨t, ht⟩ := h.step_succeeds haccepted hs
    exact ⟨t, by rw [runOps_append, hs, bind_some, runOps_cons, ht]; rfl⟩

/-- The last operation on a key leaves the planned value there. -/
theorem Independent.last_written (h : Independent initial (before ++ op :: after))
    (haccepted : Accepted initial (before ++ op :: after))
    (hrun : runOps (before ++ op :: after) initial = some final) (htarget : op.target = some key)
    (hafter : ∀ o ∈ after, ¬ o.Touches key) : final key = op.planned initial := by
  obtain ⟨s, t, hbefore, hstep, hrest⟩ := exists_of_runOps_append_cons hrun
  rw [runOps_of_not_touches hrest hafter]
  cases op with
  | add k value =>
    rw [step_of_target hstep htarget (by simp [removes])]
    rfl
  | delete k => simp [target] at htarget
  | move k destination derive =>
    rw [target, some.injEq] at htarget
    subst htarget
    have hself := h.kept k destination derive (by simp) (.move k destination derive) (by simp)
    rw [step_of_target hstep rfl hself]
    exact planned_congr (haccepted.source_value_of_removes h.kept hbefore rfl)
  | edit k edit =>
    rw [target, some.injEq] at htarget
    subst htarget
    rw [step_of_target hstep rfl (by simp [removes])]
    obtain hvalue | ⟨m, derive, hmove, hvalue⟩ := haccepted.edited_value h.kept h.same hbefore
    · exact planned_congr hvalue
    · obtain ⟨value, hedit, hsame | ⟨m', derive', hlater⟩⟩ :=
        h.rederived before after k edit rfl m derive hmove
      · have hplanned := h.same m k derive (mem_append_left _ hmove) (.edit k edit) (by simp) rfl
        rw [hplanned, hsame, planned, hvalue, hedit]
      · exact absurd (Or.inl rfl) (hafter _ hlater)

/-- The store after independent operations is the planned one. -/
theorem Independent.predicts (h : Independent initial ops) (haccepted : Accepted initial ops)
    (hrun : runOps ops initial = some final) : Predicts initial ops final where
  written := by
    intro op hop key htarget
    obtain ⟨before, o, after, rfl, ho, hafter⟩ := exists_last_touches ⟨op, hop, Or.inl htarget⟩
    have hmem : o ∈ before ++ o :: after := by simp
    have htarget' : o.target = some key :=
      ho.resolve_right (h.removes_ne_of_target haccepted hop hmem htarget)
    rw [h.last_written haccepted hrun htarget' hafter]
    exact h.planned_eq_of_target haccepted hmem hop htarget' htarget
  removed := by
    intro op hop key hremoves
    obtain ⟨before, after, rfl⟩ := append_of_mem hop
    obtain ⟨s, t, -, hstep, hafter⟩ := exists_of_runOps_append_cons hrun
    rw [runOps_of_not_touches hafter fun o ho =>
      haccepted.not_touches_of_removes h.kept hremoves o (mem_append_right before ho)]
    exact step_of_removes hstep hremoves
  unchanged := fun _ huntouched => runOps_of_not_touches hrun huntouched

/-- Conversely, a run that ends as planned has no operation that depends on another. -/
theorem Predicts.independent (h : Predicts initial ops final) (haccepted : Accepted initial ops)
    (hrun : runOps ops initial = some final) : Independent initial ops where
  kept := h.destinationsKept haccepted
  same := h.destinationsAgree
  rederived := by
    rintro before after destination edit rfl key derive hmove
    have hkept := h.destinationsKept haccepted
    obtain ⟨s, t, hbefore, hstep, hafter⟩ := exists_of_runOps_append_cons hrun
    have hvalue : s destination = (initial key).bind derive :=
      haccepted.moved_value hkept h.destinationsAgree hbefore hmove
        fun op hop => haccepted.source_ne op (mem_append_left after hop)
    obtain ⟨value, hedit, rfl⟩ := map_eq_some_iff.mp hstep
    rw [hvalue] at hedit
    refine ⟨value, hedit, ?_⟩
    by_cases hlater : ∃ k derive', .move k destination derive' ∈ after
    · exact Or.inr hlater
    · -- Nothing writes the destination any more, so the edit has left it alone.
      left
      have huntouched : ∀ op ∈ after, ¬ op.Touches destination := by
        intro op hop htouches
        obtain hsource | ⟨k, derive', rfl⟩ := source_eq_or_move_of_touches htouches
        · exact haccepted.source_ne op (mem_append_right before hop) hsource
        · exact hlater ⟨k, derive', hop⟩
      have hfinal := runOps_of_not_touches hafter huntouched
      rw [update_self] at hfinal
      rw [← hfinal]
      exact (h.written _ (mem_append_left _ hmove) destination rfl).symm

/-- The plan tells the outcome exactly if the operations are independent. -/
theorem predicted_iff_independent (haccepted : Accepted initial ops) :
    (∃ final, runOps ops initial = some final ∧
      Predicts initial ops final) ↔ Independent initial ops := by
  constructor
  · rintro ⟨final, hrun, hpredicts⟩
    exact hpredicts.independent haccepted hrun
  · intro h
    have hall : ops ++ [] = ops := append_nil ops
    obtain ⟨final, hrun⟩ := (hall.symm ▸ h : Independent initial (ops ++ [])).run_succeeds
        (hall.symm ▸ haccepted)
    exact ⟨final, hrun, h.predicts haccepted hrun⟩

end Foundation
