import Rexux.LinuxSandbox.Bwrap

/-!
# Layers of the plan

Without symbolic links the plan is a list of layers: the base, the masks above the
writable roots, one block for each writable root from the outside in, and the masks
elsewhere.  A block binds its root and then repeats every mask below the root, so
what it shows of the host is outside of all of them.
-/

namespace Rexux.LinuxSandbox

open Foundation Rexux.Path Rexux.Permissions FileSystemSandboxPolicy List BwrapArgs

/-- No symbolic links, a directory `/tmp`, and parents for everything that exists. -/
structure SandboxHost.IsSymlinkFree (host : SandboxHost) : Prop
    extends host.toHost.IsLinkFree where
  noSymlinks : ∀ path, host.linkMetadata path ≠ some true
  parents : ∀ path other : AbsolutePath, other.components <+: path.components →
    host.pathExists path = true → host.pathExists other = true

def IsText (path : AbsolutePath) : Prop := mountTarget path = path.components

instance (path : AbsolutePath) : Decidable (IsText path) :=
  inferInstanceAs (Decidable (mountTarget path = path.components))

variable {path : AbsolutePath}

theorem IsText.of_prefix {other : AbsolutePath} (h : IsText path)
    (hbegins : other.components <+: path.components) : IsText other := by
  obtain ⟨suffix, hsuffix⟩ := hbegins
  unfold IsText mountTarget at h ⊢
  rw [← hsuffix, map_append] at h
  exact (append_inj h (by rw [length_map])).1

theorem IsText.childPath {name : Text} (h : IsText path)
    (hname : name ∈ protectedMetadataPathNames) : IsText (childPath path name) := by
  have hlast : utf8Bytes (fromUtf8Lossy (utf8Bytes name)) = utf8Bytes name := by
    simp only [protectedMetadataPathNames, mem_cons, not_mem_nil, or_false] at hname
    rcases hname with rfl | rfl | rfl <;> decide +kernel
  unfold IsText mountTarget at h ⊢
  rw [components_childPath path hname, map_append, h, map_singleton, hlast]

variable {host : SandboxHost} {allowed : List AbsolutePath}

section Free

theorem firstSymlink_eq_none {isRelevant : AbsolutePath → Bool} (hfree : host.IsSymlinkFree)
    (paths : List AbsolutePath) : firstSymlink host isRelevant paths = none := by
  induction paths with
  | nil => rfl
  | cons path paths ih =>
    unfold firstSymlink
    cases hmetadata : host.linkMetadata path with
    | none => rfl
    | some isLink =>
      cases isLink with
      | true => exact absurd hmetadata (hfree.noSymlinks path)
      | false => exact ih

theorem canonicalTarget_eq_none (hfree : host.IsSymlinkFree)
    (path : AbsolutePath) : canonicalTargetIfSymlinkedPath host path = none := by
  unfold canonicalTargetIfSymlinkedPath
  rw [firstSymlink_eq_none hfree]

theorem isWithinAllowedWritePaths_iff :
    isWithinAllowedWritePaths allowed path ↔
      ∃ root ∈ allowed, root.components <+: path.components := by
  simp only [isWithinAllowedWritePaths, any_eq_true, AbsolutePath.startsWith_iff]

/-- A missing path has a first missing component, which is below every allowed path
above it. -/
theorem findFirstNonExistentComponent_spec (hfree : host.IsSymlinkFree)
    (hallowed : ∀ root ∈ allowed, host.pathExists root) (hmissing : host.pathExists path = false)
    (hwithin : isWithinAllowedWritePaths allowed path) :
    ∃ missing, findFirstNonExistentComponent host path = some missing ∧
      missing.components <+: path.components ∧
      isWithinAllowedWritePaths allowed missing := by
  obtain ⟨root, hroot, habove⟩ := isWithinAllowedWritePaths_iff.mp hwithin
  have hne : path ≠ .root := by
    rintro rfl
    obtain rfl : root = .root := AbsolutePath.ext (prefix_nil.mp habove)
    rw [hallowed _ hroot] at hmissing
    cases hmissing
  cases hfind : findFirstNonExistentComponent host path with
  | none =>
    have hall := find?_eq_none.mp hfind path (AbsolutePath.mem_steps_iff.mpr ⟨prefix_rfl, hne⟩)
    simp [hmissing] at hall
  | some missing =>
    have hnot := find?_some hfind
    obtain ⟨hbegins, -⟩ := AbsolutePath.mem_steps_iff.mp (mem_of_find?_eq_some hfind)
    refine ⟨missing, rfl, hbegins, isWithinAllowedWritePaths_iff.mpr ⟨root, hroot, ?_⟩⟩
    rcases prefix_or_prefix_of_prefix habove hbegins with hbelow | habove'
    · exact hbelow
    · have hexists := hfree.parents root missing habove' (hallowed root hroot)
      simp [hexists] at hnot

end Free

/-! ## Layers of the masks -/

def layersOf : Except SandboxError BwrapArgs → List (Layer Bytes View)
  | .ok args => args.layers
  | .error _ => []

theorem layers_append (args others : BwrapArgs) :
    (args.append others).layers = args.layers ++ others.layers := by
  simp [layers, append]

/-- Arguments are put together item by item. -/
theorem concatArgs_spec {α : Type} {args : α → Except SandboxError BwrapArgs} {items : List α}
    (h : ∀ item ∈ items, ∃ result, args item = .ok result) :
    ∃ result, concatArgs args items = .ok result ∧
      result.layers = items.flatMap fun item => layersOf (args item) := by
  induction items with
  | nil => exact ⟨_, rfl, rfl⟩
  | cons item items ih =>
    rw [forall_mem_cons] at h
    obtain ⟨first, hfirst⟩ := h.1
    obtain ⟨rest, hrest, hlayers⟩ := ih h.2
    refine ⟨first.append rest, by simp [concatArgs, hfirst, hrest], ?_⟩
    rw [layers_append, hlayers, flatMap_cons, hfirst]
    rfl

section Masks

theorem layers_missingReadOnlySubpathArgs (path : AbsolutePath) :
    (missingReadOnlySubpathArgs path).layers = [⟨mountTarget path, .empty⟩] := by
  unfold missingReadOnlySubpathArgs
  split <;> rfl

theorem layers_existingUnreadablePathArgs (unreadable : AbsolutePath) :
    (existingUnreadablePathArgs host allowed unreadable).layers =
      [⟨mountTarget unreadable, .empty⟩] := by
  unfold existingUnreadablePathArgs
  split <;> rfl

variable (hfree : host.IsSymlinkFree) (hallowed : ∀ root ∈ allowed, host.pathExists root)
include hfree hallowed

/-- What is missing at a path is hidden by one empty layer on the way to it. -/
theorem missingArgs_spec (hmissing : host.pathExists path = false) {mask : AbsolutePath → BwrapArgs}
    (hmask : ∀ path, (mask path).layers = [⟨mountTarget path, .empty⟩]) :
    ∃ args, (match findFirstNonExistentComponent host path with
        | some missing =>
          if isWithinAllowedWritePaths allowed missing then .ok (mask missing)
          else .ok (.ofMounts [])
        | none => .ok (.ofMounts [])) = (.ok args : Except SandboxError BwrapArgs) ∧
      (∀ layer ∈ args.layers, layer.content = .empty) ∧
      (isWithinAllowedWritePaths allowed path → IsText path →
        ∃ layer ∈ args.layers, layer.target <+: path.components) := by
  by_cases hwithin : isWithinAllowedWritePaths allowed path
  · obtain ⟨missing, hfind, hbegins, hinside⟩ :=
      findFirstNonExistentComponent_spec hfree hallowed hmissing hwithin
    rw [hfind]
    simp only [hinside]
    refine ⟨_, rfl, by simp [hmask], fun _ htext => ⟨⟨mountTarget missing, .empty⟩, ?_, ?_⟩⟩
    · simp [hmask]
    · rw [htext.of_prefix hbegins]
      exact hbegins
  · repeat' split
    · exact ⟨_, rfl, by simp [hmask], fun h => absurd h hwithin⟩
    all_goals exact ⟨_, rfl, by simp [layers, ofMounts], fun h => absurd h hwithin⟩

theorem readOnlySubpathArgs_spec (subpath : AbsolutePath) :
    ∃ args, readOnlySubpathArgs host allowed subpath = .ok args ∧
      (∀ layer ∈ args.layers, layer.content = .empty ∨
        layer = ⟨mountTarget subpath, .host false⟩ ∧ isWithinAllowedWritePaths allowed subpath) ∧
      (isWithinAllowedWritePaths allowed subpath → IsText subpath →
        ∃ layer ∈ args.layers, layer.target <+: subpath.components) := by
  have hnone : firstWritableSymlinkComponentInPath host allowed subpath = none :=
    firstSymlink_eq_none hfree _
  unfold readOnlySubpathArgs
  simp only [hnone]
  iterate 2
    split
    · exact ⟨_, rfl, by simp [emptyFileArgs, emptyDirectoryArgs, layers, BwrapMount.layers],
        fun _ htext => ⟨⟨mountTarget subpath, .empty⟩, mem_singleton_self _, htext ▸ prefix_rfl⟩⟩
  split
  next hmissing =>
    obtain ⟨args, hargs, hempty, hcovers⟩ := missingArgs_spec hfree hallowed
      (by simpa using hmissing) layers_missingReadOnlySubpathArgs
    exact ⟨args, hargs, fun layer hlayer => Or.inl (hempty layer hlayer), hcovers⟩
  split
  next hwithin =>
    refine ⟨_, rfl, by simp [layers, ofMounts, BwrapMount.layers, hwithin], fun _ htext => ?_⟩
    exact ⟨⟨mountTarget subpath, .host false⟩, mem_singleton_self _, htext ▸ prefix_rfl⟩
  next hwithin => exact ⟨_, rfl, by simp [layers, ofMounts], fun h => absurd h hwithin⟩

theorem unreadableRootArgs_spec (unreadable : AbsolutePath) :
    ∃ args, unreadableRootArgs host allowed unreadable = .ok args ∧
      (∀ layer ∈ args.layers, layer.content = .empty) ∧
      (host.pathExists unreadable ∨
          isWithinAllowedWritePaths allowed unreadable → IsText unreadable →
        ∃ layer ∈ args.layers, layer.target <+: unreadable.components) := by
  have hnone : firstWritableSymlinkComponentInPath host allowed unreadable = none :=
    firstSymlink_eq_none hfree _
  unfold unreadableRootArgs
  simp only [hnone]
  split
  next hmissing =>
    have hmissing : host.pathExists unreadable = false := by simpa using hmissing
    obtain ⟨args, hargs, hempty, hcovers⟩ := missingArgs_spec hfree hallowed hmissing
      fun path => (rfl : (emptyFileArgs none path [.missing path]).layers = _)
    exact ⟨args, hargs, hempty, fun h => hcovers (h.resolve_left (by simp [hmissing]))⟩
  · refine ⟨_, rfl, by simp [layers_existingUnreadablePathArgs], fun _ htext =>
      ⟨⟨mountTarget unreadable, .empty⟩, by simp [layers_existingUnreadablePathArgs], ?_⟩⟩
    exact htext ▸ prefix_rfl

end Masks

/-! ## Layers of the plan -/

variable (context : PlanContext) (writable : WritableRoot)

def subpathLayers : List (Layer Bytes View) :=
  (sortByDepth (maskedSubpaths context writable)).flatMap fun subpath =>
    layersOf (readOnlySubpathArgs context.host context.allowedWritePaths subpath)

def registryLayers : List (Layer Bytes View) :=
  (registryMounts context.host writable.root).flatMap BwrapMount.layers

def unreadableLayers (unreadableRoots : List AbsolutePath) : List (Layer Bytes View) :=
  unreadableRoots.flatMap fun unreadable =>
    layersOf (unreadableRootArgs context.host context.allowedWritePaths unreadable)

def nestedLayers : List (Layer Bytes View) :=
  unreadableLayers context
    (sortByDepth (context.unreadableRoots.filter (·.startsWith writable.root)))

def blockLayers : List (Layer Bytes View) :=
  [⟨mountTarget writable.root, .host true⟩] ++ subpathLayers context writable ++
    registryLayers context writable ++ nestedLayers context writable

variable {context : PlanContext}

theorem mem_sortByDepth {paths : List AbsolutePath} : path ∈ sortByDepth paths ↔ path ∈ paths :=
  mem_insertionSort _

variable {unreadableRoots : List AbsolutePath}

section Plan

theorem writableRootArgs_spec (hfree : context.host.IsSymlinkFree)
    (hallowed : ∀ root ∈ context.allowedWritePaths, context.host.pathExists root)
    (writable : WritableRoot) :
    ∃ args, writableRootArgs context writable = .ok args ∧
      args.layers = blockLayers context writable := by
  obtain ⟨readOnly, hreadOnly, hreadOnlyLayers⟩ := @concatArgs_spec _
    (readOnlySubpathArgs context.host context.allowedWritePaths)
    (sortByDepth (maskedSubpaths context writable))
    fun subpath _ => (readOnlySubpathArgs_spec hfree hallowed subpath).imp fun args h => h.1
  obtain ⟨unreadable, hunreadable, hunreadableLayers⟩ := @concatArgs_spec _
    (unreadableRootArgs context.host context.allowedWritePaths)
    (sortByDepth (context.unreadableRoots.filter (·.startsWith writable.root)))
    fun path _ => (unreadableRootArgs_spec hfree hallowed path).imp fun args h => h.1
  have hparents : (maskingParents context writable.root).flatMap BwrapMount.layers = [] := by
    unfold maskingParents
    split
    · simp [BwrapMount.layers]
    · rfl
  have htarget := canonicalTarget_eq_none hfree writable.root
  unfold writableRootArgs
  simp only [htarget, remapPathsForSymlinkTarget, hreadOnly, hunreadable]
  refine ⟨_, rfl, ?_⟩
  rw [layers_append, layers_append, layers_append, hreadOnlyLayers, hunreadableLayers]
  simp only [layers, flatMap_append, hparents]
  rfl

def planContext (policy : FileSystemSandboxPolicy) (host : SandboxHost) (cwd : AbsolutePath)
    (roots : List WritableRoot) (unreadableRoots : List AbsolutePath) : PlanContext :=
  ⟨host, unreadableRoots, missingAutoMetadataReadOnlyProjectRootSubpaths policy host cwd,
    allowedWritePathsOf host roots⟩

theorem allowedWritePathsOf_eq (hfree : host.IsSymlinkFree)
    (roots : List WritableRoot) : allowedWritePathsOf host roots = roots.map (·.root) := by
  simp [allowedWritePathsOf, canonicalTarget_eq_none hfree, map_eq_flatMap]

/-- The layers of the whole plan. -/
theorem overlayArgs_spec {policy : FileSystemSandboxPolicy}
    {cwd : AbsolutePath} {roots : List WritableRoot} (hfree : host.IsSymlinkFree)
    (hexists : ∀ writable ∈ roots, host.pathExists writable.root)
    (hcontext : context = planContext policy host cwd roots unreadableRoots) :
    ∃ args, overlayArgs policy host cwd roots unreadableRoots = .ok args ∧
      args.layers = (baseMounts policy host cwd roots).flatMap BwrapMount.layers ++
        unreadableLayers context (unreadableAncestors unreadableRoots (roots.map (·.root))) ++
        (sortRootsByDepth roots).flatMap (blockLayers context) ++
        unreadableLayers context
          (rootlessUnreadableRoots unreadableRoots (roots.map (·.root))) := by
  subst hcontext
  have hallowed : ∀ root ∈ allowedWritePathsOf host roots, host.pathExists root := by
    rw [allowedWritePathsOf_eq hfree]
    intro root hroot
    obtain ⟨writable, hwritable, rfl⟩ := mem_map.mp hroot
    exact hexists writable hwritable
  have hmasks := fun paths : List AbsolutePath => @concatArgs_spec _
    (unreadableRootArgs host (allowedWritePathsOf host roots)) paths
    fun path _ => (unreadableRootArgs_spec hfree hallowed path).imp fun args h => h.1
  have hblocks := fun writable => writableRootArgs_spec
    (show (planContext policy host cwd roots unreadableRoots).host.IsSymlinkFree from hfree)
    hallowed writable
  obtain ⟨ancestors, hancestors, hancestorLayers⟩ :=
    hmasks (unreadableAncestors unreadableRoots (allowedWritePathsOf host roots))
  obtain ⟨rootless, hrootless, hrootlessLayers⟩ :=
    hmasks (rootlessUnreadableRoots unreadableRoots (allowedWritePathsOf host roots))
  obtain ⟨writable, hwritable, hwritableLayers⟩ := @concatArgs_spec _
    (writableRootArgs (planContext policy host cwd roots unreadableRoots))
    (sortRootsByDepth roots) fun writable _ => (hblocks writable).imp fun args h => h.1
  have hblockLayers : ∀ writable, layersOf
      (writableRootArgs (planContext policy host cwd roots unreadableRoots) writable) =
        blockLayers (planContext policy host cwd roots unreadableRoots) writable := by
    intro writable
    obtain ⟨args, hargs, hlayers⟩ := hblocks writable
    rw [hargs]
    exact hlayers
  unfold planContext at hwritable
  unfold overlayArgs
  simp only [hancestors, hwritable, hrootless]
  refine ⟨_, rfl, ?_⟩
  rw [layers_append, layers_append, layers_append, hancestorLayers, hrootlessLayers,
    hwritableLayers]
  simp only [hblockLayers]
  rw [← allowedWritePathsOf_eq hfree]
  rfl

end Plan

section Block

variable {writable : WritableRoot} {layer : Layer Bytes View}

/-- What the masks of a context need to work. -/
structure PlanContext.IsSound (context : PlanContext) : Prop where
  free : context.host.IsSymlinkFree
  existing : ∀ root ∈ context.allowedWritePaths, context.host.pathExists root = true
  texts : ∀ unreadable ∈ context.unreadableRoots, IsText unreadable

variable (hsound : context.IsSound)
include hsound

theorem content_of_mem_unreadableLayers
    (h : layer ∈ unreadableLayers context unreadableRoots) : layer.content = .empty := by
  obtain ⟨unreadable, -, hlayer⟩ := mem_flatMap.mp h
  obtain ⟨args, hargs, hempty, -⟩ := unreadableRootArgs_spec hsound.free hsound.existing unreadable
  rw [hargs] at hlayer
  exact hempty layer hlayer

variable {unreadable : AbsolutePath}

theorem exists_mem_unreadableLayers (hmem : unreadable ∈ unreadableRoots)
    (htext : IsText unreadable)
    (hexists : context.host.pathExists unreadable ∨
      isWithinAllowedWritePaths context.allowedWritePaths unreadable)
    (habove : unreadable.components <+: path.components) :
    ∃ layer ∈ unreadableLayers context unreadableRoots, layer.target <+: path.components := by
  obtain ⟨args, hargs, -, hcovers⟩ := unreadableRootArgs_spec hsound.free hsound.existing unreadable
  obtain ⟨layer, hlayer, htarget⟩ := hcovers hexists htext
  refine ⟨layer, mem_flatMap.mpr ⟨unreadable, hmem, ?_⟩, htarget.trans habove⟩
  rw [hargs]
  exact hlayer

theorem not_prefix_of_shownAt_block (hroot : writable.root ∈ context.allowedWritePaths)
    (h : shownAt (blockLayers context writable) path.components = some layer)
    (hcontent : layer.content ≠ .empty) (hmem : unreadable ∈ context.unreadableRoots)
    (hbelow : writable.root.components <+: unreadable.components) :
    ¬ unreadable.components <+: path.components := by
  intro habove
  rcases shownAt_append_eq_some h with hnested | ⟨hnone, -⟩
  · exact hcontent (content_of_mem_unreadableLayers hsound (shownAt_spec hnested).1)
  · have hlisted : unreadable ∈
        sortByDepth (context.unreadableRoots.filter (·.startsWith writable.root)) :=
      mem_sortByDepth.mpr (mem_filter.mpr ⟨hmem, (AbsolutePath.startsWith_iff _ _).mpr hbelow⟩)
    obtain ⟨mask, hmask, htarget⟩ := exists_mem_unreadableLayers hsound hlisted
      (hsound.texts unreadable hmem)
      (.inr (isWithinAllowedWritePaths_iff.mpr ⟨_, hroot, hbelow⟩)) habove
    exact shownAt_eq_none_iff.mp hnone mask hmask htarget

omit hsound in
theorem mem_registryLayers (h : layer ∈ registryLayers context writable) :
    ∃ place, layer = ⟨mountTarget place, .host false⟩ ∧
      (place = context.host.syntheticMountRegistryRoot ∨ place = writable.root) ∧
      writable.root.components <+: place.components := by
  unfold registryLayers registryMounts at h
  dsimp only at h
  split at h
  next hbelow =>
    exact ⟨_, mem_singleton.mp h, .inl rfl, (AbsolutePath.startsWith_iff _ _).mp hbelow⟩
  · split at h
    · exact ⟨_, mem_singleton.mp h, .inr rfl, prefix_rfl⟩
    · cases h

theorem mem_subpathLayers (h : layer ∈ subpathLayers context writable) :
    layer.content = .empty ∨ ∃ subpath ∈ maskedSubpaths context writable,
      layer = ⟨mountTarget subpath, .host false⟩ ∧
        isWithinAllowedWritePaths context.allowedWritePaths subpath := by
  obtain ⟨subpath, hsubpath, hlayer⟩ := mem_flatMap.mp h
  obtain ⟨args, hargs, hlayers, -⟩ := readOnlySubpathArgs_spec hsound.free hsound.existing subpath
  rw [hargs] at hlayer
  exact (hlayers layer hlayer).imp_right fun h => ⟨subpath, mem_sortByDepth.mp hsubpath, h⟩

theorem content_of_mem_blockLayers (h : layer ∈ blockLayers context writable) :
    layer.content = .empty ∨ ∃ isWritable, layer.content = .host isWritable := by
  simp only [blockLayers, mem_append, mem_singleton] at h
  rcases h with ((rfl | hsubpath) | hregistry) | hnested
  · exact .inr ⟨true, rfl⟩
  · rcases mem_subpathLayers hsound hsubpath with hempty | ⟨_, -, rfl, -⟩
    · exact .inl hempty
    · exact .inr ⟨false, rfl⟩
  · obtain ⟨_, rfl, -⟩ := mem_registryLayers hregistry
    exact .inr ⟨false, rfl⟩
  · exact .inl (content_of_mem_unreadableLayers hsound hnested)

/-- What a writable root shows as writable lies below it and below none of its masks. -/
theorem writable_of_shownAt_block
    (hroot : writable.root ∈ context.allowedWritePaths) (htext : IsText writable.root)
    (h : shownAt (blockLayers context writable) path.components = some layer)
    (hcontent : layer.content = .host true) :
    writable.root.components <+: path.components ∧
      ∀ subpath ∈ maskedSubpaths context writable, IsText subpath →
        writable.root.components <+: subpath.components →
        ¬ subpath.components <+: path.components := by
  rcases shownAt_append_eq_some h with hnested | ⟨-, h⟩
  · have hempty := content_of_mem_unreadableLayers hsound (shownAt_spec hnested).1
    rw [hcontent] at hempty
    cases hempty
  rcases shownAt_append_eq_some h with hregistry | ⟨-, h⟩
  · obtain ⟨_, rfl, -⟩ := mem_registryLayers (shownAt_spec hregistry).1
    cases hcontent
  rcases shownAt_append_eq_some h with hsubpaths | ⟨hnone, h⟩
  · rcases mem_subpathLayers hsound (shownAt_spec hsubpaths).1 with hempty | ⟨_, -, rfl, -⟩
    · rw [hcontent] at hempty
      cases hempty
    · cases hcontent
  · obtain ⟨hmem, htarget⟩ := shownAt_spec h
    obtain rfl := mem_singleton.mp hmem
    rw [htext] at htarget
    refine ⟨htarget, fun subpath hsubpath hsubtext hbelow habove => ?_⟩
    obtain ⟨args, hargs, -, hcovers⟩ := readOnlySubpathArgs_spec hsound.free hsound.existing subpath
    obtain ⟨mask, hmask, hbegins⟩ := hcovers
      (isWithinAllowedWritePaths_iff.mpr ⟨_, hroot, hbelow⟩) hsubtext
    refine shownAt_eq_none_iff.mp hnone mask ?_ (hbegins.trans habove)
    exact mem_flatMap.mpr ⟨subpath, mem_sortByDepth.mpr hsubpath, hargs ▸ hmask⟩

/-- What a writable root shows at all comes from the root or one of its masks. -/
theorem origin_of_shownAt_block (htext : IsText writable.root)
    (hregistry : IsText context.host.syntheticMountRegistryRoot)
    (h : shownAt (blockLayers context writable) path.components = some layer)
    (hcontent : layer.content ≠ .empty) :
    writable.root.components <+: path.components ∨
      ∃ subpath ∈ maskedSubpaths context writable,
        mountTarget subpath <+: path.components ∧
        isWithinAllowedWritePaths context.allowedWritePaths subpath := by
  obtain ⟨hmem, htarget⟩ := shownAt_spec h
  simp only [blockLayers, mem_append, mem_singleton] at hmem
  rcases hmem with ((rfl | hsubpath) | hreg) | hnested
  · left
    rwa [htext] at htarget
  · rcases mem_subpathLayers hsound hsubpath with hempty | ⟨subpath, hsub, rfl, hwithin⟩
    · exact absurd hempty hcontent
    · exact .inr ⟨subpath, hsub, htarget, hwithin⟩
  · obtain ⟨place, rfl, hplace, hbelow⟩ := mem_registryLayers hreg
    have hown : IsText place := by
      rcases hplace with rfl | rfl
      · exact hregistry
      · exact htext
    exact .inl (hbelow.trans (hown ▸ htarget))
  · exact absurd (content_of_mem_unreadableLayers hsound hnested) hcontent

end Block

end Rexux.LinuxSandbox
