import Rexux.Rollout.Recorder

/-!
# What is in a rollout file

The records of the file follow the items that were handed over, as long as no write that
fails leaves its record behind.
-/

namespace Rexux.Rollout

open Foundation List Bool

variable {Time Item SessionMeta : Type}

section Log

variable (format : LineFormat (RolloutLine Time Item)) (env : Environment Time Item SessionMeta)
  (start : Start SessionMeta)

/-- The records that were added to a file, in the order of the items. -/
structure IsLogOf (recorded : List Item) (log : List (RolloutLine Time Item)) : Prop where
  ordinals : log.map (·.ordinal) = (List.range' start.first log.length).map some
  items : ∃ tick, log.map (·.item) <+:
    (start.session.map (env.sessionMetaLine tick)).toList ++ recorded

def HasLogOf (recorded : List Item) (file : ByteString) : Prop :=
  ∃ log, format.records file = format.records start.file ++ log ∧ IsLogOf env start recorded log

/-- The files there were up to now, those in the middle of a write included. -/
def IsMoment (sys : System Item SessionMeta) (file : ByteString) : Prop :=
  file = start.file ∨ ∃ change ∈ sys.appends, ∃ n, file = change.1 ++ change.2.take n

/-- What the writer promises for a run: the file is a log at every moment, and after a
barrier the log of all items. -/
structure KeepsLog (cmds : List (RolloutCmd Item)) : Prop where
  moments : ∀ file, IsMoment start (rolloutWriter format env cmds start.system) file →
    HasLogOf format env start (rolloutWriter format env cmds start.system).recorded file
  barrier : ∀ cmd sys, handle format env (rolloutWriter format env cmds start.system) cmd =
    (some true, sys) →
      ∃ log, format.records sys.file = format.records start.file ++ log ∧
        sys.recorded <:+ log.map (·.item)

end Log

/-- A write that fails before `bound` loses more than its newline. -/
def Environment.CutsRecords (env : Environment Time Item SessionMeta) (bound : ℕ) : Prop :=
  ∀ tick < bound, ∀ lost, env.writing tick = .failed lost → 2 ≤ lost

/-! ## Time -/

section Time

variable {format : LineFormat (RolloutLine Time Item)}
  {env : Environment Time Item SessionMeta}

/-- Operations that do not turn the clock back. -/
def KeepsTime (operation : System Item SessionMeta → System.Result Item SessionMeta) : Prop :=
  ∀ sys, sys.tick ≤ (operation sys).2.tick

theorem KeepsTime.andThen {first next : System Item SessionMeta → System.Result Item SessionMeta}
    (hfirst : KeepsTime first) (hnext : KeepsTime next) :
    KeepsTime fun sys => System.andThen (first sys) next := by
  intro sys
  change sys.tick ≤ (if (first sys).1 then next (first sys).2 else first sys).2.tick
  split
  · exact Nat.le_trans (hfirst sys) (hnext _)
  · exact hfirst sys

theorem tick_append (sys : System Item SessionMeta) (bytes : ByteString) (outcome : Outcome) :
    (sys.append bytes outcome).2.tick = sys.tick + 1 := by
  cases outcome with
  | done | failed => rfl

theorem tick_writeNext {sys : System Item SessionMeta} {ordinal : Option ℕ}
    (hcurrent : sys.state.ordinalState.current = some ordinal) (item : Item) :
    (sys.writeNext format env item).2.tick = sys.tick + 1 := by
  unfold System.writeNext System.writeRolloutItem
  rw [hcurrent]
  cases env.writing sys.tick with
  | done | failed => rfl

variable (format env)

theorem keepsTime_ensureWriterOpen :
    KeepsTime fun sys : System Item SessionMeta => sys.ensureWriterOpen env := by
  intro sys
  change sys.tick ≤ (if sys.state.isOpen then (true, sys)
    else System.andThen (sys.openLogFile env) fun sys => (true, sys.setOpen)).2.tick
  split
  · exact Nat.le_refl _
  · refine KeepsTime.andThen (fun sys => ?_) (fun _ => Nat.le_refl _) sys
    exact Nat.le_of_lt (tick_append sys _ _ ▸ Nat.lt_succ_self _)

theorem keepsTime_writeNext (item : Item) : KeepsTime (System.writeNext format env item) := by
  intro sys
  cases hcurrent : sys.state.ordinalState.current with
  | none =>
    unfold System.writeNext
    rw [hcurrent]
  | some ordinal =>
    rw [tick_writeNext hcurrent]
    exact Nat.le_succ _

theorem keepsTime_writeSessionMetaIfNeeded :
    KeepsTime (System.writeSessionMetaIfNeeded format env) := by
  intro sys
  unfold System.writeSessionMetaIfNeeded
  split
  · exact Nat.le_refl _
  · refine KeepsTime.andThen (fun sys => ?_) (fun _ => Nat.le_refl _) sys
    unfold System.writeSessionMeta
    split
    · exact keepsTime_writeNext format env _ sys
    · exact Nat.le_refl _

theorem keepsTime_writeItems (items : List Item) :
    KeepsTime fun sys => (System.writeItems format env items sys).2 := by
  induction items with
  | nil => exact fun _ => Nat.le_refl _
  | cons item items ih =>
    intro sys
    have hnext := keepsTime_writeNext format env item sys
    simp only [System.writeItems]
    split
    next next hwrite => exact hwrite ▸ hnext
    next next hwrite =>
      rw [hwrite] at hnext
      exact Nat.le_trans hnext (ih next)

theorem keepsTime_writePendingItemsOnce :
    KeepsTime (System.writePendingItemsOnce format env) := by
  intro sys
  unfold System.writePendingItemsOnce
  split
  · exact keepsTime_writeItems format env _ sys
  · exact Nat.le_refl _

theorem keepsTime_flushFile : KeepsTime fun sys : System Item SessionMeta => sys.flushFile env :=
  fun sys => Nat.le_succ sys.tick

theorem keepsTime_writePendingOnce : KeepsTime (System.writePendingOnce format env) :=
  (((keepsTime_ensureWriterOpen env).andThen
    (keepsTime_writeSessionMetaIfNeeded format env)).andThen
    (keepsTime_writePendingItemsOnce format env)).andThen (keepsTime_flushFile env)

theorem keepsTime_writePendingWithRecovery :
    KeepsTime (System.writePendingWithRecovery format env) := by
  intro sys
  have hfirst := keepsTime_writePendingOnce format env sys
  unfold System.writePendingWithRecovery
  split
  next next hwrite => exact hwrite ▸ hfirst
  next next hwrite =>
    have hsecond := keepsTime_writePendingOnce format env next.enterRecoveryMode
    rw [hwrite] at hfirst
    split
    next last hretry =>
      rw [hretry] at hsecond
      exact Nat.le_trans hfirst hsecond
    next last hretry =>
      rw [hretry] at hsecond
      exact Nat.le_trans hfirst hsecond

theorem keepsTime_flush : KeepsTime (System.flush format env) := by
  intro sys
  unfold System.flush
  split
  · exact Nat.le_refl _
  · exact keepsTime_writePendingWithRecovery format env sys

theorem tick_le_handle (sys : System Item SessionMeta) (cmd : RolloutCmd Item) :
    sys.tick ≤ (handle format env sys cmd).2.tick := by
  cases cmd with
  | addItems items =>
    have hflush := keepsTime_flush format env (sys.addItems items)
    change _ ≤ ((sys.addItems items).flushIfMaterialized format env).tick
    unfold System.flushIfMaterialized
    split
    · exact Nat.le_refl _
    · split
      next next hresult =>
        rw [hresult] at hflush
        exact hflush
      next next hresult =>
        rw [hresult] at hflush
        exact hflush
  | persist => exact keepsTime_writePendingWithRecovery format env sys
  | flush | shutdown => exact keepsTime_flush format env sys

theorem tick_le_step (sys : System Item SessionMeta) (cmd : RolloutCmd Item) :
    sys.tick ≤ (step format env sys cmd).tick := by
  unfold step
  split
  · exact tick_le_handle format env sys cmd
  · exact Nat.le_refl _

end Time

section Invariant

variable {format : LineFormat (RolloutLine Time Item)}
  {env : Environment Time Item SessionMeta} {start : Start SessionMeta}
  {log : List (RolloutLine Time Item)} {sys : System Item SessionMeta} {items recorded : List Item}

theorem IsLogOf.mono (h : IsLogOf env start recorded log) :
    IsLogOf env start (recorded ++ items) log := by
  obtain ⟨tick, hitems⟩ := h.items
  refine ⟨h.ordinals, tick, ?_⟩
  rw [← append_assoc]
  exact hitems.trans (prefix_append _ _)

variable {file : ByteString}

/-- How far the items are written. -/
inductive Progress (env : Environment Time Item SessionMeta) (start : Start SessionMeta)
    (sys : System Item SessionMeta) : List (RolloutLine Time Item) → Prop
  | waiting {session : SessionMeta} (hsession : sys.state.session = some session)
      (hstart : start.session = some session)
      (hpending : sys.state.pendingItems = sys.recorded) : Progress env start sys []
  | writing {log : List (RolloutLine Time Item)} (hsession : sys.state.session = none)
      (tick : ℕ)
      (hitems : log.map (·.item) ++ sys.state.pendingItems =
        (start.session.map (env.sessionMetaLine tick)).toList ++ sys.recorded) :
      Progress env start sys log

variable (format env start log sys) in
/-- The file and its ordinals, apart from the items that are still to be written.  Where a
write has failed the last line need not be whole. -/
structure Tracks : Prop where
  records : format.records sys.file = format.records start.file ++ log
  ordinals : log.map (·.ordinal) = (List.range' start.first log.length).map some
  next : sys.state.ordinalState = .before (start.first + log.length)
  moments : ∀ file, IsMoment start sys file → HasLogOf format env start sys.recorded file

structure SameQueue (sys next : System Item SessionMeta) : Prop where
  isOpen : next.state.isOpen = sys.state.isOpen
  pendingItems : next.state.pendingItems = sys.state.pendingItems
  session : next.state.session = sys.state.session
  recorded : next.recorded = sys.recorded

theorem SameQueue.refl (sys : System Item SessionMeta) : SameQueue sys sys := ⟨rfl, rfl, rfl, rfl⟩

variable {next : System Item SessionMeta}

theorem SameQueue.trans {last : System Item SessionMeta} (h : SameQueue sys next)
    (hnext : SameQueue next last) : SameQueue sys last where
  isOpen := hnext.isOpen.trans h.isOpen
  pendingItems := hnext.pendingItems.trans h.pendingItems
  session := hnext.session.trans h.session
  recorded := hnext.recorded.trans h.recorded

theorem Progress.congr (h : Progress env start sys log)
    (hpending : next.state.pendingItems = sys.state.pendingItems)
    (hsession : next.state.session = sys.state.session)
    (hrecorded : next.recorded = sys.recorded) : Progress env start next log := by
  cases h with
  | waiting hold hstart hqueue =>
    exact .waiting (hsession.trans hold) hstart (hpending.trans (hqueue.trans hrecorded.symm))
  | writing hold tick hitems =>
    refine .writing (hsession.trans hold) tick ?_
    rw [hpending, hrecorded]
    exact hitems

theorem Progress.isLogOf (h : Progress env start sys log)
    (hordinals : log.map (·.ordinal) = (List.range' start.first log.length).map some) :
    IsLogOf env start sys.recorded log := by
  refine ⟨hordinals, ?_⟩
  cases h with
  | waiting => exact ⟨0, nil_prefix⟩
  | writing _ tick hitems => exact ⟨tick, hitems ▸ prefix_append _ _⟩

/-! ## One operation -/

variable {bytes : ByteString}

theorem isMoment_append {outcome : Outcome} (h : IsMoment start (sys.append bytes outcome).2 file) :
    IsMoment start sys file ∨ ∃ n, file = sys.file ++ bytes.take n := by
  rcases h with rfl | ⟨change, hchange, n, rfl⟩
  · exact .inl (.inl rfl)
  · cases outcome with
    | done =>
      rcases mem_cons.mp hchange with rfl | hchange
      · exact .inr ⟨n, rfl⟩
      · exact .inl (.inr ⟨change, hchange, n, rfl⟩)
    | failed lost =>
      rcases mem_cons.mp hchange with rfl | hchange
      · refine .inr ⟨min n (bytes.length - lost), ?_⟩
        rw [← take_take]
      · exact .inl (.inr ⟨change, hchange, n, rfl⟩)

variable (sys bytes) in
theorem sameQueue_append (outcome : Outcome) : SameQueue sys (sys.append bytes outcome).2 := by
  cases outcome with
  | done | failed => exact ⟨rfl, rfl, rfl, rfl⟩

variable (format file) in
theorem records_take_terminator (n : ℕ) :
    format.records (file ++ (terminator file).take n) = format.records file := by
  unfold terminator
  split
  · rw [take_nil, append_nil]
  · cases n with
    | zero => rw [take_zero, append_nil]
    | succ n =>
      rw [take_succ_cons, take_nil]
      exact format.records_concat_newline file

variable (format) in
theorem encode_ne_nil (record : RolloutLine Time Item) : format.encode record ≠ [] := by
  intro hnil
  have hparse := format.parse_encode record
  rw [hnil, format.parse_nil] at hparse
  cases hparse

theorem Tracks.moments_append (h : Tracks format env start log sys)
    (hbytes : ∀ n, HasLogOf format env start sys.recorded (sys.file ++ bytes.take n))
    (outcome : Outcome) (hfile : IsMoment start (sys.append bytes outcome).2 file) :
    HasLogOf format env start sys.recorded file := by
  rcases isMoment_append hfile with hold | ⟨n, rfl⟩
  · exact h.moments file hold
  · exact hbytes n

theorem Tracks.openLogFile (h : Tracks format env start log sys)
    (hlog : IsLogOf env start sys.recorded log) :
    Tracks format env start log (sys.openLogFile env).2 ∧
      ((sys.openLogFile env).1 → IsTerminated (sys.openLogFile env).2.file) := by
  have hrecords : ∀ n, format.records (sys.file ++ (terminator sys.file).take n) =
      format.records start.file ++ log := by
    intro n
    rw [records_take_terminator, h.records]
  have hbytes : ∀ n, HasLogOf format env start sys.recorded
      (sys.file ++ (terminator sys.file).take n) := fun n => ⟨log, hrecords n, hlog⟩
  unfold System.openLogFile
  cases env.opening sys.tick with
  | done =>
    refine ⟨⟨?_, h.ordinals, h.next, fun _ => h.moments_append hbytes .done⟩, ?_⟩
    · exact (format.records_append_terminator sys.file).trans h.records
    · exact fun _ => isTerminated_append_terminator sys.file
  | failed lost =>
    exact ⟨⟨hrecords _, h.ordinals, h.next, fun _ => h.moments_append hbytes (.failed lost)⟩,
      fun h => absurd h false_ne_true⟩

variable {record : RolloutLine Time Item}

theorem Tracks.hasLogOf_take (h : Tracks format env start log sys)
    (hterminated : IsTerminated sys.file) (hlog : IsLogOf env start sys.recorded log)
    (hnext : IsLogOf env start sys.recorded (log ++ [record])) (n : ℕ) :
    HasLogOf format env start sys.recorded (sys.file ++ (format.line record).take n) := by
  by_cases hcut : n < (format.encode record).length
  · refine ⟨log, ?_, hlog⟩
    rw [format.records_append hterminated, format.records_take_line_of_lt hcut, h.records,
      append_nil]
  · refine ⟨log ++ [record], ?_, hnext⟩
    rw [format.records_append hterminated,
      format.records_take_line_of_le (Nat.le_of_not_lt hcut), h.records, append_assoc]

theorem ordinals_concat (h : log.map (·.ordinal) = (List.range' start.first log.length).map some)
    (hrecord : record.ordinal = some (start.first + log.length)) :
    (log ++ [record]).map (·.ordinal) =
      (List.range' start.first (log ++ [record]).length).map some := by
  rw [map_append, h, length_append, length_singleton, range'_concat]
  simp [hrecord]

section Write

variable (h : Tracks format env start log sys) (hterminated : IsTerminated sys.file)
  (hlog : IsLogOf env start sys.recorded log)
  (hnext : IsLogOf env start sys.recorded (log ++ [record]))

include h hterminated hlog hnext

theorem Tracks.append_done
    {ordinal : Option ℕ} (hordinal : sys.state.ordinalState.current = some ordinal) :
    Tracks format env start (log ++ [record])
      (sys.append (format.line record) .done).2.advance where
  records := by
    change format.records (sys.file ++ format.line record) = _
    rw [format.records_append hterminated, format.records_line, h.records, append_assoc]
  ordinals := hnext.ordinals
  next := by
    rw [h.next] at hordinal
    change sys.state.ordinalState.advance = _
    rw [h.next, RolloutOrdinalState.advance_before hordinal, length_append,
      length_singleton, Nat.add_assoc]
  moments := fun _ => h.moments_append (h.hasLogOf_take hterminated hlog hnext) .done

/-- A write that is cut inside its record adds no record. -/
theorem Tracks.append_failed {lost : ℕ} (hlost : 2 ≤ lost) :
    Tracks format env start log (sys.append (format.line record) (.failed lost)).2 where
  records := by
    have hpos := length_pos_iff.mpr (encode_ne_nil format record)
    have hcut : (format.line record).length - lost < (format.encode record).length := by
      rw [format.length_line]
      omega
    change format.records (sys.file ++ _) = _
    rw [format.records_append hterminated, format.records_take_line_of_lt hcut, h.records,
      append_nil]
  ordinals := h.ordinals
  next := h.next
  moments := fun _ => h.moments_append (h.hasLogOf_take hterminated hlog hnext) (.failed lost)

end Write

variable {bound : ℕ}

theorem Tracks.writeNext (hcuts : env.CutsRecords bound) (h : Tracks format env start log sys)
    (hterminated : IsTerminated sys.file) {item : Item}
    (hbound : (sys.writeNext format env item).2.tick ≤ bound)
    (hlog : IsLogOf env start sys.recorded log)
    (hitem : ∃ tick, log.map (·.item) ++ [item] <+:
      (start.session.map (env.sessionMetaLine tick)).toList ++ sys.recorded) :
    SameQueue sys (sys.writeNext format env item).2 ∧
      ((sys.writeNext format env item).1 →
        IsTerminated (sys.writeNext format env item).2.file ∧
        ∃ record, record.item = item ∧
          Tracks format env start (log ++ [record]) (sys.writeNext format env item).2) ∧
      ((sys.writeNext format env item).1 = false →
        Tracks format env start log (sys.writeNext format env item).2) := by
  cases hcurrent : sys.state.ordinalState.current with
  | none =>
    unfold System.writeNext
    rw [hcurrent]
    exact ⟨.refl sys, fun h => absurd h false_ne_true, fun _ => h⟩
  | some ordinal =>
    rw [tick_writeNext hcurrent] at hbound
    unfold System.writeNext System.writeRolloutItem
    rw [hcurrent]
    have hordinal : ordinal = some (start.first + log.length) :=
      RolloutOrdinalState.of_current_before (h.next ▸ hcurrent)
    have hnext : IsLogOf env start sys.recorded (log ++ [⟨env.now sys.tick, ordinal, item⟩]) :=
      ⟨ordinals_concat h.ordinals hordinal, by rw [map_append]; exact hitem⟩
    cases henv : env.writing sys.tick with
    | done =>
      refine ⟨⟨rfl, rfl, rfl, rfl⟩, fun _ => ⟨?_, ⟨env.now sys.tick, ordinal, item⟩, rfl, ?_⟩,
        fun h => absurd h.symm false_ne_true⟩
      · exact isTerminated_append_line sys.file _
      · exact h.append_done hterminated hlog hnext hcurrent
    | failed lost =>
      exact ⟨⟨rfl, rfl, rfl, rfl⟩, fun h => absurd h false_ne_true,
        fun _ => h.append_failed hterminated hlog hnext (hcuts _ hbound _ henv)⟩

/-! ## A pass over the queue -/

/-- The items that were written are in the log, one ordinal each. -/
theorem Tracks.writeItems (hcuts : env.CutsRecords bound) {tick : ℕ}
    (h : Tracks format env start log sys) (hterminated : IsTerminated sys.file)
    (hbound : (System.writeItems format env items sys).2.2.tick ≤ bound)
    (hitems : log.map (·.item) ++ items =
      (start.session.map (env.sessionMetaLine tick)).toList ++ sys.recorded) :
    SameQueue sys (System.writeItems format env items sys).2.2 ∧
      ((System.writeItems format env items sys).2.1 →
        IsTerminated (System.writeItems format env items sys).2.2.file ∧
          items.drop (System.writeItems format env items sys).1 = []) ∧
      ∃ written, Tracks format env start written (System.writeItems format env items sys).2.2 ∧
        written.map (·.item) ++ items.drop (System.writeItems format env items sys).1 =
          (start.session.map (env.sessionMetaLine tick)).toList ++ sys.recorded := by
  induction items generalizing log sys with
  | nil => exact ⟨.refl sys, fun _ => ⟨hterminated, rfl⟩, log, h, hitems⟩
  | cons item items ih =>
    have hlog : IsLogOf env start sys.recorded log := ⟨h.ordinals, tick, hitems ▸ prefix_append _ _⟩
    have hitem : ∃ tick, log.map (·.item) ++ [item] <+:
        (start.session.map (env.sessionMetaLine tick)).toList ++ sys.recorded := by
      refine ⟨tick, ?_⟩
      rw [← hitems]
      exact (prefix_append_right_inj _).mpr (prefix_append [item] items)
    have hwritten := fun hbound => h.writeNext hcuts hterminated hbound hlog hitem
    rw [System.writeItems] at hbound ⊢
    cases hwrite : sys.writeNext format env item with
    | mk ok next =>
      rw [hwrite] at hwritten hbound
      cases ok with
      | false =>
        obtain ⟨hsame, -, hfailed⟩ := hwritten hbound
        exact ⟨hsame, fun h => absurd h false_ne_true, log, hfailed rfl, hitems⟩
      | true =>
        obtain ⟨hsame, hdone, -⟩ :=
          hwritten (Nat.le_trans (keepsTime_writeItems format env items next) hbound)
        obtain ⟨hnext, record, rfl, htracks⟩ := hdone rfl
        have hrest : (log ++ [record]).map (·.item) ++ items =
            (start.session.map (env.sessionMetaLine tick)).toList ++ next.recorded := by
          rw [hsame.recorded, ← hitems, map_append, append_assoc]
          rfl
        obtain ⟨hqueue, hok, written, hwritten, hleft⟩ := ih htracks hnext hbound hrest
        refine ⟨hsame.trans hqueue, hok, written, hwritten, ?_⟩
        rw [← hsame.recorded]
        exact hleft

variable (format env start)

def Consistent (sys : System Item SessionMeta) : Prop :=
  ∃ log, Tracks format env start log sys ∧ Progress env start sys log

def IsReady (sys : System Item SessionMeta) : Prop :=
  sys.state.isOpen = true ∧ IsTerminated sys.file

/-- What an operation leaves that ends at `bound` or before. -/
def Ensures (bound : ℕ) (post : System Item SessionMeta → Prop)
    (result : System.Result Item SessionMeta) : Prop :=
  result.2.tick ≤ bound →
    Consistent format env start result.2 ∧ (result.1 = true → post result.2)

/-- The file agrees with the queue, and is complete up to its end. -/
structure IsSettled (sys : System Item SessionMeta) : Prop where
  consistent : Consistent format env start sys
  terminated : sys.state.isOpen = true → IsTerminated sys.file

def Settles (bound : ℕ) (result : System.Result Item SessionMeta) : Prop :=
  result.2.tick ≤ bound →
    IsSettled format env start result.2 ∧ (result.1 = true → result.2.state.pendingItems = [])

variable {format env start} {result : System.Result Item SessionMeta}

theorem Ensures.andThen {middle post : System Item SessionMeta → Prop}
    {next : System Item SessionMeta → System.Result Item SessionMeta}
    (h : Ensures format env start bound middle result) (htime : KeepsTime next)
    (hnext : ∀ sys, Consistent format env start sys → middle sys →
      Ensures format env start bound post (next sys)) :
    Ensures format env start bound post (System.andThen result next) := by
  unfold System.andThen
  split
  next hok =>
    intro hbound
    obtain ⟨hconsistent, hmiddle⟩ := h (Nat.le_trans (htime result.2) hbound)
    exact hnext result.2 hconsistent (hmiddle hok) hbound
  next hfailed => exact fun hbound => ⟨(h hbound).1, fun hok => absurd hok hfailed⟩

theorem Consistent.congr (h : Consistent format env start sys) (hfile : next.file = sys.file)
    (happends : next.appends = sys.appends)
    (hordinal : next.state.ordinalState = sys.state.ordinalState)
    (hpending : next.state.pendingItems = sys.state.pendingItems)
    (hsession : next.state.session = sys.state.session)
    (hrecorded : next.recorded = sys.recorded) : Consistent format env start next := by
  obtain ⟨log, htracks, hprogress⟩ := h
  refine ⟨log, ⟨hfile ▸ htracks.records, htracks.ordinals, hordinal ▸ htracks.next, ?_⟩,
    hprogress.congr hpending hsession hrecorded⟩
  intro file hmoment
  rw [hrecorded]
  apply htracks.moments
  unfold IsMoment at hmoment ⊢
  rw [← happends]
  exact hmoment

theorem Consistent.ensureWriterOpen (h : Consistent format env start sys)
    (hterminated : sys.state.isOpen → IsTerminated sys.file) :
    Ensures format env start bound IsReady (sys.ensureWriterOpen env) := by
  unfold System.ensureWriterOpen
  split
  next hopen => exact fun _ => ⟨h, fun _ => ⟨hopen, hterminated hopen⟩⟩
  next hclosed =>
    obtain ⟨log, htracks, hprogress⟩ := h
    obtain ⟨hopened, hwhole⟩ := htracks.openLogFile (hprogress.isLogOf htracks.ordinals)
    have hsame := sameQueue_append sys (terminator sys.file) (env.opening sys.tick)
    have hresult : Ensures format env start bound (fun sys => IsTerminated sys.file)
        (sys.openLogFile env) :=
      fun _ => ⟨⟨log, hopened,
        hprogress.congr hsame.pendingItems hsame.session hsame.recorded⟩, hwhole⟩
    apply hresult.andThen fun _ => Nat.le_refl _
    intro sys hconsistent hterminated _
    exact ⟨hconsistent.congr rfl rfl rfl rfl rfl rfl, fun _ => ⟨rfl, hterminated⟩⟩

theorem Consistent.writeSessionMetaIfNeeded (hcuts : env.CutsRecords bound)
    (h : Consistent format env start sys) (hready : IsReady sys) :
    Ensures format env start bound (fun sys => IsReady sys ∧ sys.state.session = none)
      (sys.writeSessionMetaIfNeeded format env) := by
  obtain ⟨log, htracks, hprogress⟩ := h
  have hlog := hprogress.isLogOf htracks.ordinals
  unfold System.writeSessionMetaIfNeeded
  cases hprogress with
  | writing hsession tick hitems =>
    rw [hsession]
    exact fun _ => ⟨⟨log, htracks, .writing hsession tick hitems⟩, fun _ => ⟨hready, hsession⟩⟩
  | @waiting session hsession hstart hpending =>
    have hitem : ∃ tick, [].map (fun line : RolloutLine Time Item => line.item) ++
        [env.sessionMetaLine sys.tick session] <+:
          (start.session.map (env.sessionMetaLine tick)).toList ++ sys.recorded := by
      refine ⟨sys.tick, ?_⟩
      rw [hstart]
      exact prefix_append _ _
    have hwritten := fun hbound => htracks.writeNext hcuts hready.2 hbound hlog hitem
    rw [hsession]
    simp only [System.writeSessionMeta, if_pos hready.1]
    cases hwrite : sys.writeNext format env (env.sessionMetaLine sys.tick session) with
    | mk ok next =>
      rw [hwrite] at hwritten
      intro hbound
      cases ok with
      | false =>
        obtain ⟨hsame, -, hfailed⟩ := hwritten hbound
        refine ⟨⟨[], hfailed rfl, ?_⟩, fun hok => absurd hok false_ne_true⟩
        exact .waiting (hsame.session.trans hsession) hstart
          (hsame.pendingItems.trans (hpending.trans hsame.recorded.symm))
      | true =>
        obtain ⟨hsame, hdone, -⟩ := hwritten hbound
        obtain ⟨hterminated, record, hrecord, hwritten⟩ := hdone rfl
        refine ⟨⟨[record], ⟨hwritten.records, hwritten.ordinals, hwritten.next,
          hwritten.moments⟩, .writing rfl sys.tick ?_⟩,
          fun _ => ⟨⟨hsame.isOpen.trans hready.1, hterminated⟩, rfl⟩⟩
        change [record.item] ++ next.state.pendingItems = _ ++ next.recorded
        rw [hsame.pendingItems, hpending, hsame.recorded, hrecord, hstart]
        rfl

/-- What was written leaves the queue, the rest stays. -/
theorem Consistent.writePendingItemsOnce (hcuts : env.CutsRecords bound)
    (h : Consistent format env start sys) (hready : IsReady sys)
    (hsession : sys.state.session = none) :
    Ensures format env start bound (fun sys => IsReady sys ∧ sys.state.pendingItems = [])
      (sys.writePendingItemsOnce format env) := by
  obtain ⟨log, htracks, hprogress⟩ := h
  cases hprogress with
  | waiting hwaiting =>
    rw [hsession] at hwaiting
    cases hwaiting
  | writing _ tick hitems =>
    rw [System.writePendingItemsOnce, if_pos hready.1]
    intro hbound
    obtain ⟨hsame, hdone, written, hwritten, hleft⟩ :=
      htracks.writeItems hcuts hready.2 hbound hitems
    refine ⟨⟨written, ⟨hwritten.records, hwritten.ordinals, hwritten.next,
      hwritten.moments⟩, .writing (hsame.session.trans hsession) tick ?_⟩, ?_⟩
    · simp only [System.drain, hsame.pendingItems, hsame.recorded]
      exact hleft
    · intro hok
      refine ⟨⟨hsame.isOpen.trans hready.1, (hdone hok).1⟩, ?_⟩
      simp only [System.drain, hsame.pendingItems]
      exact (hdone hok).2

theorem IsSettled.writePendingOnce (hcuts : env.CutsRecords bound)
    (h : IsSettled format env start sys) :
    Ensures format env start bound (fun sys => IsReady sys ∧ sys.state.pendingItems = [])
      (sys.writePendingOnce format env) := by
  have hopened : Ensures format env start bound IsReady (sys.ensureWriterOpen env) :=
    h.consistent.ensureWriterOpen h.terminated
  have hmeta := hopened.andThen (keepsTime_writeSessionMetaIfNeeded format env)
    fun _ hsys hready => hsys.writeSessionMetaIfNeeded hcuts hready
  have hitems := hmeta.andThen (keepsTime_writePendingItemsOnce format env)
    fun _ hsys hpost => hsys.writePendingItemsOnce hcuts hpost.1 hpost.2
  exact hitems.andThen (keepsTime_flushFile env)
    fun _ hsys hpost _ => ⟨hsys.congr rfl rfl rfl rfl rfl rfl, fun _ => hpost⟩

theorem IsSettled.enterRecoveryMode (h : Consistent format env start sys) :
    IsSettled format env start sys.enterRecoveryMode :=
  ⟨h.congr rfl rfl rfl rfl rfl rfl, fun hopen => absurd hopen false_ne_true⟩

theorem Ensures.settles
    (h : Ensures format env start bound
      (fun sys => IsReady sys ∧ sys.state.pendingItems = []) result)
    (hok : result.1) : Settles format env start bound result := by
  intro hbound
  obtain ⟨hconsistent, hpost⟩ := h hbound
  exact ⟨⟨hconsistent, fun _ => (hpost hok).1.2⟩, fun _ => (hpost hok).2⟩

/-- After a failure the file is opened again and the queue retried. -/
theorem IsSettled.writePendingWithRecovery (hcuts : env.CutsRecords bound)
    (h : IsSettled format env start sys) :
    Settles format env start bound (sys.writePendingWithRecovery format env) := by
  have hfirst := h.writePendingOnce hcuts
  unfold System.writePendingWithRecovery
  split
  next next hwrite =>
    rw [hwrite] at hfirst
    exact hfirst.settles rfl
  next next hwrite =>
    rw [hwrite] at hfirst
    have htime := keepsTime_writePendingOnce format env next.enterRecoveryMode
    have hsecond := fun hbound =>
      (IsSettled.enterRecoveryMode (hfirst hbound).1).writePendingOnce hcuts
    split
    next last hretry =>
      rw [hretry] at hsecond htime
      exact fun hbound => (hsecond (Nat.le_trans htime hbound)).settles rfl hbound
    next last hretry =>
      rw [hretry] at hsecond htime
      intro hbound
      obtain ⟨hlast, -⟩ := hsecond (Nat.le_trans htime hbound) hbound
      exact ⟨.enterRecoveryMode hlast, fun hok => absurd hok false_ne_true⟩

theorem IsSettled.flush (hcuts : env.CutsRecords bound) (h : IsSettled format env start sys) :
    Settles format env start bound (sys.flush format env) := by
  unfold System.flush
  split
  next hidle =>
    rw [and_eq_true, List.isEmpty_iff] at hidle
    exact fun _ => ⟨h, fun _ => hidle.2⟩
  · exact h.writePendingWithRecovery hcuts

theorem Consistent.addItems (h : Consistent format env start sys) (items : List Item) :
    Consistent format env start (sys.addItems items) := by
  obtain ⟨log, htracks, hprogress⟩ := h
  refine ⟨log, ⟨htracks.records, htracks.ordinals, htracks.next, ?_⟩, ?_⟩
  · intro file hmoment
    obtain ⟨log, hrecords, hlog⟩ := htracks.moments file hmoment
    exact ⟨log, hrecords, hlog.mono⟩
  · cases hprogress with
    | waiting hsession hstart hpending =>
      exact .waiting hsession hstart (congrArg (· ++ items) hpending)
    | writing hsession tick hitems =>
      refine .writing hsession tick ?_
      change _ ++ (sys.state.pendingItems ++ items) = _ ++ (sys.recorded ++ items)
      rw [← append_assoc, hitems, append_assoc]

theorem IsSettled.addItems (hcuts : env.CutsRecords bound) (h : IsSettled format env start sys)
    (items : List Item)
    (hbound : ((sys.addItems items).flushIfMaterialized format env).tick ≤ bound) :
    IsSettled format env start ((sys.addItems items).flushIfMaterialized format env) := by
  have hadded : IsSettled format env start (sys.addItems items) :=
    ⟨h.consistent.addItems items, h.terminated⟩
  unfold System.flushIfMaterialized at hbound ⊢
  split at hbound
  next hdeferred =>
    rw [if_pos hdeferred]
    exact hadded
  next hdeferred =>
    have hflush := hadded.flush hcuts
    rw [if_neg hdeferred]
    cases hresult : (sys.addItems items).flush format env with
    | mk ok next =>
      rw [hresult] at hflush hbound
      cases ok with
      | true => exact (hflush hbound).1
      | false => exact .enterRecoveryMode (hflush hbound).1.consistent

/-- Every command leaves the file settled. -/
theorem IsSettled.handle (hcuts : env.CutsRecords bound) (h : IsSettled format env start sys)
    (cmd : RolloutCmd Item) (hbound : (Rollout.handle format env sys cmd).2.tick ≤ bound) :
    IsSettled format env start (Rollout.handle format env sys cmd).2 ∧
      ((Rollout.handle format env sys cmd).1 = some true →
        (Rollout.handle format env sys cmd).2.state.pendingItems = []) := by
  cases cmd with
  | addItems items => exact ⟨h.addItems hcuts items hbound, fun hnone => nomatch hnone⟩
  | persist =>
    have hbarrier := h.writePendingWithRecovery hcuts hbound
    exact ⟨hbarrier.1, fun hok => hbarrier.2 (Option.some.inj hok)⟩
  | flush =>
    have hbarrier := h.flush hcuts hbound
    exact ⟨hbarrier.1, fun hok => hbarrier.2 (Option.some.inj hok)⟩
  | shutdown =>
    have hbarrier := h.flush hcuts hbound
    refine ⟨⟨?_, hbarrier.1.terminated⟩, fun hok => hbarrier.2 (Option.some.inj hok)⟩
    exact hbarrier.1.consistent.congr rfl rfl rfl rfl rfl rfl

variable (format env start) in
theorem isSettled_start : IsSettled format env start start.system where
  consistent := by
    refine ⟨[], ⟨(append_nil _).symm, rfl, rfl, ?_⟩, ?_⟩
    · rintro file (rfl | ⟨change, hchange, -⟩)
      · exact ⟨[], (append_nil _).symm, rfl, 0, nil_prefix⟩
      · cases hchange
    · cases hsession : start.session with
      | none => exact .writing hsession 0 (by rw [hsession]; rfl)
      | some session => exact .waiting hsession hsession rfl
  terminated := fun _ => start.isTerminated_file

/-- So does every run of commands. -/
theorem isSettled_rolloutWriter (hcuts : env.CutsRecords bound) (cmds : List (RolloutCmd Item))
    (h : IsSettled format env start sys)
    (hbound : (rolloutWriter format env cmds sys).tick ≤ bound) :
    IsSettled format env start (rolloutWriter format env cmds sys) := by
  revert hbound
  refine foldlRecOn (motive := fun sys : System Item SessionMeta =>
    sys.tick ≤ bound → IsSettled format env start sys) cmds _ (fun _ => h) ?_
  intro sys h cmd _ hbound
  have hsettled := h (Nat.le_trans (tick_le_step format env sys cmd) hbound)
  unfold step at hbound ⊢
  split at hbound
  next hrunning =>
    rw [if_pos hrunning]
    exact (hsettled.handle hcuts cmd hbound).1
  next hrunning =>
    rw [if_neg hrunning]
    exact hsettled

theorem Consistent.recorded_isSuffix (h : Consistent format env start sys)
    (hpending : sys.state.pendingItems = []) :
    ∃ log, format.records sys.file = format.records start.file ++ log ∧
      sys.recorded <:+ log.map (·.item) := by
  obtain ⟨log, htracks, hprogress⟩ := h
  refine ⟨log, htracks.records, ?_⟩
  cases hprogress with
  | waiting _ _ hqueue =>
    rw [← hqueue, hpending]
    exact nil_suffix
  | writing _ tick hitems =>
    rw [hpending, append_nil] at hitems
    exact hitems ▸ suffix_append _ _

end Invariant

/-- A writer whose failed writes leave no whole record neither loses, repeats nor reorders
items.  Only the writes that are reached count, those of the next command included. -/
theorem rollout_writer_keeps_log {format : LineFormat (RolloutLine Time Item)}
    {env : Environment Time Item SessionMeta} (start : Start SessionMeta)
    (cmds : List (RolloutCmd Item))
    (hcuts : ∀ cmd, env.CutsRecords
      (handle format env (rolloutWriter format env cmds start.system) cmd).2.tick) :
    KeepsLog format env start cmds := by
  have hsettled : ∀ cmd : RolloutCmd Item,
      IsSettled format env start (rolloutWriter format env cmds start.system) := fun cmd =>
    isSettled_rolloutWriter (hcuts cmd) cmds (isSettled_start format env start)
      (tick_le_handle format env _ cmd)
  constructor
  · obtain ⟨log, htracks, -⟩ := (hsettled .flush).consistent
    exact htracks.moments
  · intro cmd sys hcmd
    obtain ⟨hnext, hbarrier⟩ := (hsettled cmd).handle (hcuts cmd) cmd (Nat.le_refl _)
    rw [hcmd] at hnext hbarrier
    exact hnext.consistent.recorded_isSuffix (hbarrier rfl)

/-! ## A record that is written twice -/

def tallyMarks (ordinal : Option ℕ) : ℕ := ordinal.elim 0 (· + 1)

def tallyEnd (item : Bool) : UInt8 := if item then 2 else 3

def parseTally (marks : ℕ) : ByteString → Option (RolloutLine Unit Bool)
  | [] => none
  | byte :: rest =>
    if byte = 1 then parseTally (marks + 1) rest
    else if rest = [] then some ⟨(), if marks = 0 then none else some (marks - 1), byte = 2⟩
    else none

theorem parseTally_replicate (marks count : ℕ) (rest : ByteString) :
    parseTally marks (List.replicate count 1 ++ rest) = parseTally (marks + count) rest := by
  induction count generalizing marks with
  | zero => rfl
  | succ count ih =>
    rw [replicate_succ, cons_append, parseTally, if_pos rfl, ih]
    congr 1
    omega

theorem parseTally_end (marks : ℕ) (item : Bool) :
    parseTally marks [tallyEnd item] =
      some ⟨(), if marks = 0 then none else some (marks - 1), item⟩ := by
  cases item with
  | true | false => rfl

def tally : LineFormat (RolloutLine Unit Bool) where
  encode record := List.replicate (tallyMarks record.ordinal) 1 ++ [tallyEnd record.item]
  parse := parseTally 0
  newline_not_mem record hmem := by
    rcases mem_append.mp hmem with hmem | hmem
    · exact absurd (eq_of_mem_replicate hmem) (by decide)
    · rw [mem_singleton] at hmem
      revert hmem
      cases record.item with
      | true | false => decide
  parse_nil := rfl
  parse_encode record := by
    rw [parseTally_replicate, parseTally_end]
    obtain ⟨_, ordinal, item⟩ := record
    cases ordinal with
    | none => rfl
    | some ordinal => simp [tallyMarks]
  parse_take record n hn := by
    rw [length_append, length_replicate, length_singleton] at hn
    rw [take_append_of_le_length (by rw [length_replicate]; omega),
      take_replicate, ← append_nil (List.replicate _ _), parseTally_replicate]
    rfl

def thirdFails (lost : ℕ) : Environment Unit Bool Unit where
  opening _ := .done
  writing tick := if tick = 2 then .failed lost else .done
  flushing _ := true
  now _ := ()
  sessionMetaLine _ _ := false

/-- A write that loses its newline and a part of its record is made good. -/
theorem lost_record_is_retried :
    KeepsLog tally (thirdFails 2) (.create () none) [.addItems [true], .persist] := by
  apply rollout_writer_keeps_log
  intro cmd tick _ lost hlost
  change (if tick = 2 then Outcome.failed 2 else .done) = .failed lost at hlost
  split_ifs at hlost
  cases hlost
  decide

/-- One that loses its newline only is written again, under the same ordinal. -/
theorem record_left_by_failed_write_is_repeated :
    ¬ KeepsLog tally (thirdFails 1) (.create () none) [.addItems [true], .persist] := by
  intro hkeeps
  have hfile : IsMoment (.create () none)
      (rolloutWriter tally (thirdFails 1) [.addItems [true], .persist]
        (Start.create () none).system)
      [1, 3, 10, 1, 1, 2, 10, 1, 1, 2, 10] :=
    .inr ⟨([1, 3, 10, 1, 1, 2, 10], [1, 1, 2, 10]), by decide, 4, rfl⟩
  obtain ⟨log, hrecords, hlog⟩ := hkeeps.moments _ hfile
  obtain ⟨tick, hitems⟩ := hlog.items
  have hlength : log.length = 3 := by
    have h := congrArg List.length hrecords
    rw [length_append] at h
    change 3 = 0 + log.length at h
    omega
  have hshort := hitems.length_le
  rw [length_map, hlength] at hshort
  change 3 ≤ 2 at hshort
  omega

end Rexux.Rollout
