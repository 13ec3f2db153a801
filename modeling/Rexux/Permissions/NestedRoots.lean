import Rexux.Permissions.WriteDecision

/-!
# Nested writable roots

A list of writable roots accepts a path if one of the roots does.  A root accepts
what lies below it, apart from the rules below it that refuse writes, from its own
metadata, and from the workspace metadata if it is the working directory.

The comparison with the write decision is made here on the rules alone.  Two
things can go wrong when roots are nested.  Metadata of an inner root may be
reached through an outer root, which does not know that it is protected.  And
the workspace metadata may be refused although the decision allows it.
-/

namespace Rexux.Permissions

open Foundation Rexux.Path List

def workspaceMetadata : Bytes := utf8Bytes ".rexux".toList

theorem workspaceMetadata_mem : workspaceMetadata ∈ protectedNames := by
  simp [workspaceMetadata, protectedNames, protectedMetadataPathNames]

section Rules

variable (rules : List (List Bytes × FileSystemAccessMode))

def WritableAt (path : List Bytes) : Prop :=
  ∃ root, Decides rules path root .write ∧ (Shielded rules root ∨ ¬ IsMetadata root path)

def HasEntry (path : List Bytes) : Prop := ∃ mode, (path, mode) ∈ rules

/-- The writes at a place are not overridden there. -/
def IsWriteRoot (root : List Bytes) : Prop := Decides rules root root .write

variable (cwd : List Bytes)

/-- A writable root accepts a path. -/
structure Accepts (root path : List Bytes) : Prop where
  writable : IsWriteRoot rules root
  above : root <+: path
  carveouts : ∀ rule ∈ rules, rule.2 ≠ .write → ¬ WritableAt rules rule.1 →
    rule.1 ≠ root → root <+: rule.1 → ¬ rule.1 <+: path
  names : ∀ name ∈ protectedNames, root ++ [name] <+: path → WritableAt rules (root ++ [name])
  workspace : root = cwd → ¬ HasEntry rules (root ++ [workspaceMetadata]) →
    ¬ root ++ [workspaceMetadata] <+: path

/-- The outer root accepts what lies below the inner root and below no deeper
rule. -/
structure IsOpenTo (outer inner : List Bytes) : Prop where
  above : outer <+: inner
  strict : outer ≠ inner
  unblocked : ∀ root mode, Decides rules root root mode → outer <+: root →
    root <+: inner → root ≠ outer → root ≠ inner → mode = .write
  names : ∀ name ∈ protectedNames, outer ++ [name] <+: inner →
    HasEntry rules (outer ++ [name]) ∨
      Shielded rules outer ∧ ¬ (outer = cwd ∧ name = workspaceMetadata)

/-- Protected names of a root are not reached through an outer root, except in the
working directory when they are not protected by the decision. -/
structure NestedRootsAgree : Prop where
  inner : ∀ root, ∀ name ∈ protectedNames, IsWriteRoot rules root →
    ¬ HasEntry rules (root ++ [name]) → ¬ Shielded rules root →
    ∀ outer, IsWriteRoot rules outer → ¬ IsOpenTo rules cwd outer root
  workspace : IsWriteRoot rules cwd → Shielded rules cwd →
    ¬ HasEntry rules (cwd ++ [workspaceMetadata]) →
    ∃ outer, IsWriteRoot rules outer ∧ IsOpenTo rules cwd outer cwd

end Rules

section Lemmas

variable {rules : List (List Bytes × FileSystemAccessMode)}
  {cwd root outer path : List Bytes} {name : Bytes} {mode : FileSystemAccessMode}

theorem decides_root (h : Decides rules path root mode) : Decides rules root root mode :=
  h.restrict prefix_rfl h.above

theorem not_isMetadata_self (root : List Bytes) : ¬ IsMetadata root root := by
  rintro ⟨name, -, hbegins⟩
  exact absurd hbegins.length_le (by simp)

theorem writableAt_iff_of_hasEntry (h : HasEntry rules path) :
    WritableAt rules path ↔ IsWriteRoot rules path := by
  constructor
  · rintro ⟨root, hdecides, -⟩
    obtain ⟨mode, hmem⟩ := h
    have hroot : root = path := prefix_antisymm hdecides.above (hdecides.deepest _ hmem prefix_rfl)
    subst hroot
    exact hdecides
  · intro hwrite
    exact ⟨path, hwrite, .inr (not_isMetadata_self path)⟩

theorem IsWriteRoot.hasEntry (h : IsWriteRoot rules root) : HasEntry rules root := ⟨.write, h.mem⟩

theorem exists_decides_self (h : HasEntry rules path) (hnot : ¬ IsWriteRoot rules path) :
    ∃ mode, Decides rules path path mode ∧ mode ≠ .write := by
  obtain ⟨mode, hmem⟩ := h
  obtain ⟨root, level, hdecides⟩ := exists_decides hmem (prefix_refl path)
  have hroot : root = path := prefix_antisymm hdecides.above (hdecides.deepest _ hmem prefix_rfl)
  subst hroot
  refine ⟨level, hdecides, ?_⟩
  rintro rfl
  exact hnot hdecides

theorem decides_child (hroot : IsWriteRoot rules root)
    (hentry : ¬ HasEntry rules (root ++ [name])) : Decides rules (root ++ [name]) root .write := by
  refine hroot.extend (prefix_append _ _) fun rule hrule habove => ?_
  refine (prefix_concat_iff.mp habove).resolve_left ?_
  rintro heq
  exact hentry ⟨rule.2, heq ▸ hrule⟩

/-- A metadata name below a write root is writable only where its root is shielded. -/
theorem writableAt_child_iff (hroot : IsWriteRoot rules root) (hname : name ∈ protectedNames)
    (hentry : ¬ HasEntry rules (root ++ [name])) :
    WritableAt rules (root ++ [name]) ↔ Shielded rules root := by
  have hdecides := decides_child hroot hentry
  have hmetadata : IsMetadata root (root ++ [name]) := ⟨name, hname, prefix_rfl⟩
  constructor
  · rintro ⟨other, hother, hallowed⟩
    obtain rfl := hdecides.root_unique hother
    exact hallowed.resolve_right (not_not.mpr hmetadata)
  · intro hshielded
    exact ⟨root, hdecides, .inl hshielded⟩

theorem not_hasEntry_of_decides (h : Decides rules path root mode)
    (hbegins : root ++ [name] <+: path) : ¬ HasEntry rules (root ++ [name]) := by
  rintro ⟨level, hmem⟩
  exact absurd (h.deepest _ hmem hbegins).length_le (by simp)

theorem Accepts.isOpenTo (h : Accepts rules cwd outer path) (habove : outer <+: root)
    (hstrict : outer ≠ root) (hpath : root <+: path) : IsOpenTo rules cwd outer root where
  above := habove
  strict := hstrict
  unblocked blocked mode hdecides houter hinner hne _ := by
    by_contra hmode
    refine h.carveouts _ hdecides.mem hmode ?_ hne houter (hinner.trans hpath)
    rw [writableAt_iff_of_hasEntry ⟨mode, hdecides.mem⟩]
    intro hwrite
    exact hmode (hdecides.level_unique hwrite)
  names name hname hbegins := by
    by_cases hentry : HasEntry rules (outer ++ [name])
    · exact .inl hentry
    have hallowed := h.names name hname (hbegins.trans hpath)
    refine .inr ⟨(writableAt_child_iff h.writable hname hentry).mp hallowed, ?_⟩
    rintro ⟨hcwd, rfl⟩
    exact h.workspace hcwd hentry (hbegins.trans hpath)

theorem IsOpenTo.accepts (h : IsOpenTo rules cwd outer root) (houter : IsWriteRoot rules outer)
    (hdecides : Decides rules path root .write) : Accepts rules cwd outer path := by
  have hbetween : ∀ name, outer ++ [name] <+: path → outer ++ [name] <+: root :=
    fun _ hbegins => child_prefix_of_ne hbegins hdecides.above h.above h.strict
  -- Entries on the way to the inner root allow writes.
  have hentries : ∀ place, HasEntry rules place → outer <+: place → place <+: root →
      place ≠ outer → WritableAt rules place := by
    intro place hentry hbelow habove hne
    rw [writableAt_iff_of_hasEntry hentry]
    by_contra hnot
    obtain ⟨mode, hself, hmode⟩ := exists_decides_self hentry hnot
    have hinner : place ≠ root := by
      rintro rfl
      exact hnot (decides_root hdecides)
    exact hmode (h.unblocked place mode hself hbelow habove hne hinner)
  refine ⟨houter, h.above.trans hdecides.above, ?_, ?_, ?_⟩
  · intro rule hrule _ hrefused hne hbelow hbegins
    exact hrefused (hentries _ ⟨rule.2, hrule⟩ hbelow (hdecides.deepest rule hrule hbegins) hne)
  · intro name hname hbegins
    have hinner := hbetween name hbegins
    by_cases hentry : HasEntry rules (outer ++ [name])
    · exact hentries _ hentry (prefix_append _ _) hinner (by simp)
    · rcases h.names name hname hinner with hhas | ⟨hshielded, -⟩
      · exact absurd hhas hentry
      · exact (writableAt_child_iff houter hname hentry).mpr hshielded
  · intro hcwd hentry hbegins
    rcases h.names _ workspaceMetadata_mem (hbetween _ hbegins) with hhas | ⟨-, hnot⟩
    · exact hentry hhas
    · exact hnot ⟨hcwd, rfl⟩

section Filter

variable {keep : List Bytes × FileSystemAccessMode → Bool}

theorem shielded_filter_iff (hkeep : ∀ rule ∈ rules, rule.1 <+: root → keep rule) :
    Shielded (rules.filter keep) root ↔ Shielded rules root := by
  have hfind : (writeRoots (rules.filter keep)).find?
        (fun other => other = root ∨ IsMetadata other root) =
      (writeRoots rules).find? (fun other => other = root ∨ IsMetadata other root) := by
    induction rules with
    | nil => rfl
    | cons rule rules ih =>
      rw [forall_mem_cons] at hkeep
      have ih := ih hkeep.2
      by_cases hkept : keep rule
      · by_cases hwrite : rule.2.canWrite
        · simp only [writeRoots, filter_cons, hkept, hwrite, if_true, map_cons, find?_cons] at ih ⊢
          rw [ih]
        · simpa [writeRoots, hwrite] using ih
      · -- A rule that is left out does not lie above the root.
        have hother : ¬ (rule.1 = root ∨ IsMetadata rule.1 root) := by
          rintro (hroot | hmetadata)
          · exact hkept (hkeep.1 (hroot ▸ prefix_rfl))
          · exact hkept (hkeep.1 hmetadata.root_prefix)
        by_cases hwrite : rule.2.canWrite
        · simpa [writeRoots, hother] using ih
        · simpa [writeRoots, hwrite] using ih
  rw [Shielded, Shielded, hfind]

theorem writableAt_filter_iff (hkeep : ∀ rule ∈ rules, rule.1 <+: path → keep rule) :
    WritableAt (rules.filter keep) path ↔ WritableAt rules path := by
  refine exists_congr fun root => ?_
  rw [decides_filter_iff hkeep]
  refine and_congr_right fun hdecides => ?_
  rw [shielded_filter_iff fun rule hrule habove => hkeep rule hrule (habove.trans hdecides.above)]

end Filter

theorem Accepts.exists_decides
    (h : Accepts rules cwd outer path) : ∃ root, Decides rules path root .write := by
  obtain ⟨root, mode, hdecides⟩ := Foundation.exists_decides h.writable.mem h.above
  have habove : outer <+: root := hdecides.deepest _ h.writable.mem h.above
  have hself := decides_root hdecides
  by_cases hmode : mode = .write
  · exact ⟨root, hmode ▸ hdecides⟩
  have hne : root ≠ outer := by
    rintro rfl
    exact hmode (hself.level_unique h.writable)
  refine absurd hdecides.above (h.carveouts _ hdecides.mem hmode ?_ hne habove)
  rw [writableAt_iff_of_hasEntry ⟨mode, hdecides.mem⟩]
  intro hwrite
  exact hmode (hself.level_unique hwrite)

theorem NestedRootsAgree.writableAt (hagree : NestedRootsAgree rules cwd)
    (h : Accepts rules cwd outer path) : WritableAt rules path := by
  obtain ⟨root, hdecides⟩ := h.exists_decides
  refine ⟨root, hdecides, ?_⟩
  by_contra hrefused
  push Not at hrefused
  obtain ⟨hshielded, name, hname, hbegins⟩ := hrefused
  have hentry := not_hasEntry_of_decides hdecides hbegins
  have habove : outer <+: root := hdecides.deepest _ h.writable.mem h.above
  by_cases heq : outer = root
  · subst heq
    exact hshielded ((writableAt_child_iff h.writable hname hentry).mp (h.names name hname hbegins))
  · exact hagree.inner root name hname (decides_root hdecides) hentry hshielded outer
      h.writable (h.isOpenTo habove heq hdecides.above)

/-- A path that the rules let be written is accepted by its own root. -/
theorem accepts_of_decides (hdecides : Decides rules path root .write)
    (hallowed : Shielded rules root ∨ ¬ IsMetadata root path)
    (hworkspace : root = cwd → ¬ root ++ [workspaceMetadata] <+: path) :
    Accepts rules cwd root path where
  writable := decides_root hdecides
  above := hdecides.above
  carveouts rule hrule _ _ hne hbelow hbegins :=
    hne (prefix_antisymm (hdecides.deepest rule hrule hbegins) hbelow)
  names name hname hbegins := by
    rw [writableAt_child_iff (decides_root hdecides) hname
      (not_hasEntry_of_decides hdecides hbegins)]
    exact hallowed.resolve_right (not_not.mpr ⟨name, hname, hbegins⟩)
  workspace hcwd _ := hworkspace hcwd

theorem NestedRootsAgree.exists_accepts (hagree : NestedRootsAgree rules cwd)
    (h : WritableAt rules path) : ∃ root, Accepts rules cwd root path := by
  obtain ⟨root, hdecides, hallowed⟩ := h
  by_cases hworkspace : root = cwd ∧ root ++ [workspaceMetadata] <+: path
  · obtain ⟨rfl, hbegins⟩ := hworkspace
    have hshielded := hallowed.resolve_right (not_not.mpr ⟨_, workspaceMetadata_mem, hbegins⟩)
    obtain ⟨outer, houter, hopen⟩ := hagree.workspace (decides_root hdecides) hshielded
      (not_hasEntry_of_decides hdecides hbegins)
    exact ⟨outer, hopen.accepts houter hdecides⟩
  · exact ⟨root, accepts_of_decides hdecides hallowed fun hcwd hbegins =>
      hworkspace ⟨hcwd, hbegins⟩⟩

/-- Agreement at the protected names of the roots is enough. -/
theorem nestedRootsAgree_of_children
    (h : ∀ root, ∀ name ∈ protectedNames, IsWriteRoot rules root →
      ((∃ outer, Accepts rules cwd outer (root ++ [name])) ↔ WritableAt rules (root ++ [name]))) :
    NestedRootsAgree rules cwd where
  inner root name hname hroot hentry hshielded outer houter hopen := by
    have haccepts := hopen.accepts houter (decides_child hroot hentry)
    exact hshielded ((writableAt_child_iff hroot hname hentry).mp
      ((h root name hname hroot).mp ⟨outer, haccepts⟩))
  workspace hroot hshielded hentry := by
    have hwritable := (writableAt_child_iff hroot workspaceMetadata_mem hentry).mpr hshielded
    obtain ⟨outer, haccepts⟩ := (h cwd _ workspaceMetadata_mem hroot).mpr hwritable
    have habove : outer <+: cwd := by
      refine (prefix_concat_iff.mp haccepts.above).resolve_left ?_
      rintro rfl
      exact hentry haccepts.writable.hasEntry
    have hstrict : outer ≠ cwd := by
      rintro rfl
      exact haccepts.workspace rfl hentry prefix_rfl
    exact ⟨outer, haccepts.writable, haccepts.isOpenTo habove hstrict (prefix_append _ _)⟩

end Lemmas

end Rexux.Permissions
