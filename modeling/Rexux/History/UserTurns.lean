import Rexux.Foundation.UndoLog
import Rexux.History.Rollout

/-!
# Dropping user turns from a history

The cut stands before the boundary of the oldest dropped turn, and before the context
updates directly above it.
-/

namespace Rexux.History

open Foundation List Bool

namespace HistoryRules

variable {rules : HistoryRules}

abbrev startsTurn (rules : HistoryRules) (envelope : ResponseItemEnvelope) : Bool :=
  rules.isUserTurnBoundary envelope.item

theorem isUserTurnBoundary_of_isContextual {item : ResponseItem}
    (h : rules.isContextual item) : rules.isUserTurnBoundary item = false := by
  cases item with
  | message id role content phase passthrough =>
    simp only [isContextual, or_eq_true, and_eq_true, decide_eq_true_eq] at h
    rcases h with ⟨rfl, -⟩ | ⟨rfl, hcontent⟩
    · rfl
    · simp only [isUserTurnBoundary, hcontent]
      rfl
  | _ => cases h

variable {before : List ResponseItemEnvelope} {first : ℕ}

theorem trim_eq_length_rdropWhile {after : List ResponseItemEnvelope} {stop : ResponseItemEnvelope}
    (hfirst : before[first]? = some stop) (hstop : rules.isContextual stop.item = false) :
    rules.trimPreTurnContextUpdates (before ++ after) first before.length =
      (before.rdropWhile fun envelope => rules.isContextual envelope.item).length := by
  induction before using List.reverseRecOn generalizing after with
  | nil => cases hfirst
  | append_singleton before last ih =>
    have hlt : first < before.length + 1 := by
      have hshort := (List.getElem?_eq_some_iff.mp hfirst).1
      rwa [length_append] at hshort
    have hget : (before ++ [last] ++ after)[before.length]? = some last := by simp
    rw [length_append, length_singleton, trimPreTurnContextUpdates, hget,
      Option.any_some, decide_eq_true hlt]
    cases hlast : rules.isContextual last.item with
    | true =>
      have hinner : before[first]? = some stop := by
        rcases Nat.lt_succ_iff_lt_or_eq.mp hlt with hinner | rfl
        · rwa [getElem?_append_left hinner] at hfirst
        · rw [getElem?_append_right (Nat.le_refl _), Nat.sub_self] at hfirst
          cases hfirst
          exact absurd hlast (eq_false_iff.mp hstop)
      rw [rdropWhile_concat, if_pos hlast, append_assoc]
      exact ih hinner
    | false =>
      rw [rdropWhile_concat, if_neg (eq_false_iff.mp hlast), length_append]
      rfl

variable {boundary : ResponseItemEnvelope} {numTurns : ℕ} {items rest : List ResponseItemEnvelope}

theorem exists_first_boundary (h : ∃ envelope ∈ items, rules.startsTurn envelope) :
    ∃ before boundary rest, items = before ++ boundary :: rest ∧
      (∀ envelope ∈ before, rules.startsTurn envelope = false) ∧
      rules.startsTurn boundary ∧
      items.countP rules.startsTurn = rest.countP rules.startsTurn + 1 := by
  have hfound := find?_isSome.mpr h
  obtain ⟨boundary, hboundary⟩ := Option.isSome_iff_exists.mp hfound
  obtain ⟨hown, before, rest, rfl, hbefore⟩ := find?_eq_some_iff_append.mp hboundary
  have hnone : ∀ envelope ∈ before, rules.startsTurn envelope = false :=
    fun older holder => (not_eq_true' _).mp (hbefore older holder)
  refine ⟨before, boundary, rest, rfl, hnone, hown, ?_⟩
  have hzero : before.countP rules.startsTurn = 0 :=
    countP_eq_zero.mpr fun envelope hmem => eq_false_iff.mp (hnone envelope hmem)
  rw [countP_append, hzero, Nat.zero_add, countP_cons, if_pos hown]

theorem userMessagePositions_eq_cons
    (hbefore : ∀ envelope ∈ before, rules.startsTurn envelope = false)
    (hboundary : rules.startsTurn boundary) :
    rules.userMessagePositions (before ++ boundary :: rest) =
      before.length :: positionsFrom rules.startsTurn (before.length + 1) rest := by
  change positionsFrom rules.startsTurn 0 _ = _
  rw [positionsFrom_append, positionsFrom_eq_nil _ hbefore, Nat.zero_add,
    positionsFrom_cons_of_pos rules.startsTurn _ hboundary]
  rfl

theorem dropLastNUserTurns_of_lt_count (hbefore : ∃ envelope ∈ before, rules.startsTurn envelope)
    (hboundary : rules.startsTurn boundary) (hcount : numTurns = rest.countP rules.startsTurn + 1) :
    rules.dropLastNUserTurns numTurns (before ++ boundary :: rest) =
      before.rdropWhile fun envelope => rules.isContextual envelope.item := by
  obtain ⟨older, oldest, newer, hsplit, holder, holdest, -⟩ := exists_first_boundary hbefore
  have hget : before[older.length]? = some oldest := by
    rw [hsplit]
    simp
  have hstop : rules.isContextual oldest.item = false := by
    rw [eq_false_iff]
    intro hcontextual
    exact eq_false_iff.mp (isUserTurnBoundary_of_isContextual hcontextual) holdest
  have hpositions : rules.userMessagePositions (before ++ boundary :: rest) =
      (older.length :: positionsFrom rules.startsTurn (older.length + 1) newer) ++
        (before.length :: positionsFrom rules.startsTurn (before.length + 1) rest) := by
    have hlength : older.length + 1 + newer.length = before.length := by
      rw [hsplit, length_append, length_cons]
      omega
    rw [hsplit, append_assoc, cons_append, userMessagePositions_eq_cons holder holdest,
      positionsFrom_append, positionsFrom_cons_of_pos rules.startsTurn _ hboundary, ← hsplit,
      hlength]
    rfl
  have hcut : rollbackCut numTurns older.length
      (rules.userMessagePositions (before ++ boundary :: rest)) = before.length := by
    have hlength : numTurns =
        (before.length :: positionsFrom rules.startsTurn (before.length + 1) rest).length := by
      rw [length_cons, length_positionsFrom, hcount]
    rw [hpositions, rollbackCut, length_append, ← hlength, if_neg (by simp), Nat.add_sub_cancel,
      getD_eq_getElem?_getD, getElem?_append_right (Nat.le_refl _), Nat.sub_self]
    rfl
  -- The first boundary is no context update, so the walk ends behind it.
  have hne : (before.rdropWhile fun envelope => rules.isContextual envelope.item).length ≠
      older.length := Nat.ne_of_gt (lt_length_rdropWhile hget hstop)
  have hhead : (rules.userMessagePositions (before ++ boundary :: rest)).head? =
      some older.length := by
    rw [hpositions]
    rfl
  rw [dropLastNUserTurns, if_neg (by omega), hhead]
  dsimp only
  rw [hcut, trim_eq_length_rdropWhile hget hstop, if_neg hne]
  have hbegin := rdropWhile_prefix
    (fun envelope : ResponseItemEnvelope => rules.isContextual envelope.item) before
  rw [take_append_of_le_length hbegin.length_le]
  exact (prefix_iff_eq_take.mp hbegin).symm

variable {history : List ResponseItemEnvelope}

/-- Turns recorded behind a history that has a turn of its own are dropped with the
context updates above them, and nothing else. -/
theorem dropLastNUserTurns_append {context : List ResponseItemEnvelope}
    (hhistory : ∃ envelope ∈ history, rules.startsTurn envelope)
    (hend : ∀ envelope, history.getLast? = some envelope → rules.isContextual envelope.item = false)
    (hcontext : ∀ envelope ∈ context, rules.isContextual envelope.item)
    (hboundary : rules.startsTurn boundary) (hcount : numTurns = rest.countP rules.startsTurn + 1) :
    rules.dropLastNUserTurns numTurns (history ++ context ++ (boundary :: rest)) = history := by
  obtain ⟨own, hown, hownBoundary⟩ := hhistory
  rw [dropLastNUserTurns_of_lt_count ⟨own, mem_append_left _ hown, hownBoundary⟩ hboundary
    hcount, rdropWhile_append_of_all hcontext, rdropWhile_eq_self_iff]
  intro hne
  exact eq_false_iff.mp (hend _ (getLast?_eq_some_getLast hne))

theorem dropLastNUserTurns_of_count_le
    (hbefore : ∀ envelope ∈ before, rules.startsTurn envelope = false)
    (hboundary : rules.startsTurn boundary) (hcount : rest.countP rules.startsTurn < numTurns) :
    rules.dropLastNUserTurns numTurns (before ++ boundary :: rest) = match boundary.item.turnId with
      | none => before
      | some turnId => before.filterMap (rules.withoutRebuiltText turnId) := by
  have hcut : rollbackCut numTurns before.length (before.length ::
      positionsFrom rules.startsTurn (before.length + 1) rest) = before.length := by
    rw [rollbackCut, length_cons, length_positionsFrom, if_pos (by omega)]
  have htrim : rules.trimPreTurnContextUpdates (before ++ boundary :: rest) before.length
      before.length = before.length := by
    cases hlength : before.length with
    | zero => rfl
    | succ length => rw [trimPreTurnContextUpdates, decide_eq_false (Nat.lt_irrefl _)]; rfl
  have hfirst : (before ++ boundary :: rest)[before.length]? = some boundary := by simp
  rw [dropLastNUserTurns, if_neg (by omega), userMessagePositions_eq_cons hbefore hboundary,
    head?_cons]
  dsimp only
  rw [hcut, htrim, if_pos rfl, hfirst, take_left' rfl]
  rfl

theorem isUserTurnBoundary_withoutRebuiltText {turnId : Text} {envelope kept : ResponseItemEnvelope}
    (h : rules.withoutRebuiltText turnId envelope = some kept) :
    rules.isUserTurnBoundary kept.item = rules.isUserTurnBoundary envelope.item := by
  obtain ⟨item, metadata⟩ := envelope
  cases item with
  | message id role content phase passthrough =>
    simp only [withoutRebuiltText, and_eq_true, decide_eq_true_eq] at h
    split at h
    next hdeveloper =>
      split_ifs at h
      cases h
      obtain ⟨-, rfl⟩ := hdeveloper
      rfl
    · cases h
      rfl
  | _ =>
    cases h
    rfl

variable {items : List ResponseItemEnvelope}

theorem dropLastNUserTurns_of_no_boundary
    (h : ∀ envelope ∈ history, rules.startsTurn envelope = false) (count : ℕ) :
    rules.dropLastNUserTurns count history = history := by
  unfold dropLastNUserTurns
  have hnone : rules.userMessagePositions history = [] := positionsFrom_eq_nil _ h
  rw [hnone]
  split
  · rfl
  · rfl

variable (rules items) in
/-- However many turns are dropped beyond all there are, the same is left, and only the items
before the first user turn can come out changed. -/
theorem exists_undroppable :
    ∃ floor, (∀ numTurns, items.countP rules.startsTurn ≤ numTurns →
        rules.dropLastNUserTurns numTurns items = floor) ∧
      (∀ envelope ∈ floor, rules.startsTurn envelope = false) ∧
      (floor <+: items ∨ ∃ turnId, floor =
        (items.takeWhile (!rules.startsTurn ·)).filterMap (rules.withoutRebuiltText turnId)) := by
  by_cases hown : ∃ envelope ∈ items, rules.startsTurn envelope
  · obtain ⟨before, boundary, rest, rfl, hbefore, hboundary, hcount⟩ := exists_first_boundary hown
    refine ⟨_, fun numTurns hall => dropLastNUserTurns_of_count_le hbefore hboundary (by omega), ?_⟩
    cases boundary.item.turnId with
    | none => exact ⟨hbefore, .inl (prefix_append before _)⟩
    | some turnId =>
      refine ⟨fun envelope hmem => ?_, .inr ⟨turnId, ?_⟩⟩
      · obtain ⟨original, horiginal, hkept⟩ := mem_filterMap.mp hmem
        exact (isUserTurnBoundary_withoutRebuiltText hkept).trans (hbefore original horiginal)
      · rw [takeWhile_append_of_pos (by simpa using hbefore),
          takeWhile_cons_of_neg (by simpa using hboundary), append_nil]
  · have hnone : ∀ envelope ∈ items, rules.startsTurn envelope = false := by
      simpa using hown
    exact ⟨items, fun numTurns _ => dropLastNUserTurns_of_no_boundary hnone numTurns, hnone,
      .inl (prefix_refl items)⟩

theorem exists_oldest_dropped (hpos : 0 < numTurns)
    (hsome : numTurns < items.countP rules.startsTurn) :
    ∃ before boundary rest, items = before ++ boundary :: rest ∧
      (∃ envelope ∈ before, rules.startsTurn envelope) ∧
      rules.startsTurn boundary ∧
      numTurns = rest.countP rules.startsTurn + 1 := by
  have hposition : (positionsFrom rules.startsTurn 0 items)[
      items.countP rules.startsTurn - numTurns]? = some _ :=
    getElem?_eq_getElem (by rw [length_positionsFrom]; omega)
  obtain ⟨before, boundary, rest, rfl, hboundary, hbefore⟩ :=
    exists_split_of_getElem?_positionsFrom rules.startsTurn hposition
  rw [countP_append, countP_cons_of_pos hboundary] at hsome hbefore
  exact ⟨before, boundary, rest, rfl, countP_pos_iff.mp (by omega), hboundary, by omega⟩

theorem filter_dropLastNUserTurns (numTurns : ℕ) (items : List ResponseItemEnvelope) :
    (rules.dropLastNUserTurns numTurns items).filter rules.startsTurn =
      (items.filter rules.startsTurn).rdrop numTurns := by
  rcases Nat.eq_zero_or_pos numTurns with rfl | hpos
  · rw [dropLastNUserTurns, if_pos rfl, rdrop_zero]
  rcases Nat.lt_or_ge numTurns (items.countP rules.startsTurn) with hsome | hall
  · obtain ⟨before, boundary, rest, rfl, hown, hboundary, hcount⟩ :=
      exists_oldest_dropped hpos hsome
    have hdropped : (rest.filter rules.startsTurn).length + 1 = numTurns := by
      rw [← countP_eq_length_filter, hcount]
    have hkept : (before.rdropWhile fun envelope =>
        rules.isContextual envelope.item).filter rules.startsTurn =
          before.filter rules.startsTurn :=
      filter_rdropWhile (fun envelope => isUserTurnBoundary_of_isContextual) before
    rw [dropLastNUserTurns_of_lt_count hown hboundary hcount, hkept, filter_append,
      filter_cons_of_pos hboundary, rdrop_append, length_cons, hdropped, Nat.sub_self, rdrop_zero]
    have hgone : (boundary :: rest.filter rules.startsTurn).rdrop numTurns = [] :=
      rdrop_eq_nil_iff.mpr (Nat.le_of_eq hdropped)
    rw [hgone, append_nil]
  · have hdropped : (items.filter rules.startsTurn).rdrop numTurns = [] := by
      rwa [rdrop_eq_nil_iff, ← countP_eq_length_filter]
    obtain ⟨floor, hfloor, hnone, -⟩ := exists_undroppable rules items
    rw [hdropped, hfloor numTurns hall, filter_eq_nil_iff]
    exact fun envelope hmem => eq_false_iff.mp (hnone envelope hmem)

theorem exists_kept_of_lt_count (hpos : 0 < numTurns)
    (hsome : numTurns < items.countP rules.startsTurn) :
    ∃ kept gone, items = kept ++ gone ∧ rules.dropLastNUserTurns numTurns items = kept ∧
      (∃ envelope ∈ kept, rules.startsTurn envelope) ∧
      gone.countP rules.startsTurn = numTurns := by
  have hcount : (rules.dropLastNUserTurns numTurns items).countP rules.startsTurn =
      items.countP rules.startsTurn - numTurns := by
    rw [countP_eq_length_filter, filter_dropLastNUserTurns, length_rdrop, ← countP_eq_length_filter]
  obtain ⟨before, boundary, rest, hitems, holder, hboundary, hrest⟩ :=
    exists_oldest_dropped hpos hsome
  have hkept : rules.dropLastNUserTurns numTurns items <+: items := by
    rw [hitems, dropLastNUserTurns_of_lt_count holder hboundary hrest]
    refine IsPrefix.trans ?_ <| prefix_append _ _
    exact rdropWhile_prefix _ before
  obtain ⟨gone, hgone⟩ := hkept
  have htotal := congrArg (countP rules.startsTurn) hgone
  rw [countP_append] at htotal
  exact ⟨_, gone, hgone.symm, rfl, countP_pos_iff.mp (by omega), by omega⟩

/-- Turns behind a history with a turn of its own only add to the number to drop. -/
theorem dropLastNUserTurns_append_gone {kept : List ResponseItemEnvelope}
    (gone : List ResponseItemEnvelope) (hkept : ∃ envelope ∈ kept, rules.startsTurn envelope)
    (hpos : 0 < numTurns) :
    rules.dropLastNUserTurns (gone.countP rules.startsTurn + numTurns)
        (kept ++ gone) =
      rules.dropLastNUserTurns numTurns kept := by
  rcases Nat.lt_or_ge numTurns (kept.countP rules.startsTurn) with hsome | hall
  · obtain ⟨before, boundary, rest, rfl, holder, hboundary, hcount⟩ :=
      exists_oldest_dropped hpos hsome
    rw [dropLastNUserTurns_of_lt_count holder hboundary hcount, append_assoc, cons_append]
    apply dropLastNUserTurns_of_lt_count holder hboundary
    rw [countP_append]
    omega
  · obtain ⟨before, boundary, rest, rfl, hbefore, hboundary, hcount⟩ := exists_first_boundary hkept
    have hmore : (rest ++ gone).countP rules.startsTurn <
          gone.countP rules.startsTurn + numTurns := by
      rw [countP_append]
      omega
    rw [append_assoc, cons_append, dropLastNUserTurns_of_count_le hbefore hboundary hmore,
      dropLastNUserTurns_of_count_le hbefore hboundary (by omega)]

theorem dropLastNUserTurns_dropLastNUserTurns (first second : ℕ)
    (items : List ResponseItemEnvelope) :
    rules.dropLastNUserTurns second (rules.dropLastNUserTurns first items) =
      rules.dropLastNUserTurns (first + second) items := by
  rcases Nat.eq_zero_or_pos first with rfl | hfirst
  · rw [Nat.zero_add]
    rfl
  rcases Nat.lt_or_ge first (items.countP rules.startsTurn) with hsome | hall
  · rcases Nat.eq_zero_or_pos second with rfl | hsecond
    · rfl
    obtain ⟨kept, gone, rfl, hdrop, hkept, hgone⟩ := exists_kept_of_lt_count hfirst hsome
    rw [hdrop, ← dropLastNUserTurns_append_gone gone hkept hsecond, hgone]
  · obtain ⟨floor, hfloor, hnone, -⟩ := exists_undroppable rules items
    rw [hfloor first hall, hfloor (first + second) (by omega)]
    exact dropLastNUserTurns_of_no_boundary hnone second

/-- Dropping turns twice drops their sum, and all that is left of a history from its first
user turn on is a beginning of it. -/
theorem dropLastNUserTurns_add (rules : HistoryRules) (first second : ℕ)
    (items : List ResponseItemEnvelope) :
    rules.dropLastNUserTurns second (rules.dropLastNUserTurns first items) =
        rules.dropLastNUserTurns (first + second) items ∧
      (rules.dropLastNUserTurns first items <+: items ∨
        ∃ turnId, rules.dropLastNUserTurns first items =
          (items.takeWhile (!rules.startsTurn ·)).filterMap (rules.withoutRebuiltText turnId)) := by
  refine ⟨dropLastNUserTurns_dropLastNUserTurns first second items, ?_⟩
  rcases Nat.eq_zero_or_pos first with rfl | hfirst
  · exact .inl (prefix_refl items)
  rcases Nat.lt_or_ge first (items.countP rules.startsTurn) with hsome | hall
  · obtain ⟨kept, gone, rfl, hdrop, -, -⟩ := exists_kept_of_lt_count hfirst hsome
    rw [hdrop]
    exact .inl (prefix_append kept gone)
  · obtain ⟨floor, hfloor, -, hprefix⟩ := exists_undroppable rules items
    rw [hfloor first hall]
    exact hprefix

end HistoryRules

end Rexux.History
