import Rexux.Path.PathUri

/-!
# Absolute paths of the host

On the host a path is a list of components, free of dots and separators.  Texts
and URIs are turned into paths by resolving dots, and a path has a URI unless its
first component looks like a drive; then it is stored in the opaque form.

For the paths with an ordinary URI both views agree: the URI is plain and has the
components of the path.
-/

namespace Rexux.Path

open Foundation List

/-! ## Splitting -/

theorem splitOn_cons {α : Type*} [DecidableEq α] (sep a : α) (l : List α) :
    (a :: l).splitOn sep =
      if a = sep then [] :: l.splitOn sep else (l.splitOn sep).modifyHead (a :: ·) := by
  rw [splitOn_cons_eq_if_modifyHead]
  simp

theorem not_mem_of_mem_splitOn {α : Type*} [DecidableEq α] {sep : α} {l part : List α}
    (h : part ∈ l.splitOn sep) : sep ∉ part := by
  induction l generalizing part with
  | nil =>
    rw [splitOn_nil, mem_singleton] at h
    simp [h]
  | cons a l ih =>
    rw [splitOn_cons] at h
    split at h
    · rcases mem_cons.mp h with rfl | hpart
      · exact not_mem_nil
      · exact ih hpart
    next hne =>
      obtain ⟨first, rest, hcons⟩ := exists_cons_of_ne_nil (splitOn_ne_nil sep l)
      rw [hcons] at h
      rcases mem_cons.mp h with rfl | hpart
      · have hfirst : sep ∉ first := ih (hcons ▸ mem_cons_self)
        simp [hfirst, Ne.symm hne]
      · exact ih (hcons ▸ mem_cons_of_mem _ hpart)

theorem splitOn_append_of_not_mem {α : Type*} [DecidableEq α] {sep : α} {l : List α}
    (rest : List α) (h : sep ∉ l) :
    (l ++ rest).splitOn sep = (rest.splitOn sep).modifyHead (l ++ ·) := by
  induction l with
  | nil => cases hrest : rest.splitOn sep <;> simp [hrest]
  | cons a l ih =>
    rw [mem_cons, not_or] at h
    rw [cons_append, splitOn_cons, if_neg (Ne.symm h.1), ih h.2]
    cases rest.splitOn sep <;> simp

theorem splitOn_flatMap {α : Type*} [DecidableEq α] {sep : α} {parts : List (List α)}
    (h : ∀ part ∈ parts, sep ∉ part) : (parts.flatMap (sep :: ·)).splitOn sep = [] :: parts := by
  induction parts with
  | nil => simp
  | cons part parts ih =>
    rw [forall_mem_cons] at h
    rw [flatMap_cons, cons_append, splitOn_cons, splitOn_append_of_not_mem _ h.1, ih h.2]
    simp

theorem splitOn_utf8Bytes (t : Text) :
    (utf8Bytes t).splitOn 0x2F = (t.splitOn '/').map utf8Bytes := by
  have hslash : (0x2F : UInt8) = UInt8.ofNat '/'.toNat := rfl
  induction t with
  | nil => rfl
  | cons c t ih =>
    rw [utf8Bytes_cons, splitOn_cons]
    split
    next heq =>
      subst heq
      rw [utf8EncodeChar_ascii (by decide), singleton_append, splitOn_cons, ih]
      rfl
    next hne =>
      have hnot : (0x2F : UInt8) ∉ String.utf8EncodeChar c := by
        rw [hslash, mem_utf8EncodeChar_iff (by decide)]
        exact hne
      rw [splitOn_append_of_not_mem _ hnot, ih]
      cases t.splitOn '/' <;> simp [utf8Bytes_cons]

/-- A name that a path can have between two slashes. -/
def isPathComponent (component : Bytes) : Bool :=
  !component.isEmpty && !component.contains 0x2F && component != [0x2E] && component != [0x2E, 0x2E]

/-- A normalised absolute path. -/
structure AbsolutePath where
  components : List Bytes
  valid : components.all isPathComponent = true
  deriving DecidableEq, Repr

open AbsolutePath

variable {component : Bytes}

namespace AbsolutePath

def root : AbsolutePath := ⟨[], rfl⟩

def startsWith (path base : AbsolutePath) : Bool := base.components.isPrefixOf path.components

theorem startsWith_iff (path base : AbsolutePath) :
    path.startsWith base ↔ base.components <+: path.components :=
  isPrefixOf_iff_prefix

theorem ext {path other : AbsolutePath} (h : path.components = other.components) :
    path = other := by
  obtain ⟨components, valid⟩ := path
  subst h
  rfl

/-- Blank and `.` components are dropped, and `..` takes one away. -/
def normalizeStep (components : List Bytes) (component : Bytes) : List Bytes :=
  if component = [] ∨ component = [0x2E] then components
  else if component = [0x2E, 0x2E] then components.dropLast
  else components ++ [component]

theorem all_normalizeStep {components : List Bytes}
    (h : components.all isPathComponent) (hslash : 0x2F ∉ component) :
    (normalizeStep components component).all isPathComponent := by
  unfold normalizeStep
  split
  · exact h
  next hdot =>
    split
    · rw [all_eq_true] at h ⊢
      exact fun c hc => h c (dropLast_subset _ hc)
    next hdots =>
      rw [all_append, h]
      simp only [not_or] at hdot
      simp [isPathComponent, hdot.1, hdot.2, hdots, hslash]

/-- Normalizing leaves proper components only. -/
theorem all_foldl_normalizeStep {components raw : List Bytes}
    (h : components.all isPathComponent) (hslash : ∀ component ∈ raw, 0x2F ∉ component) :
    (raw.foldl normalizeStep components).all isPathComponent := by
  induction raw generalizing components with
  | nil => exact h
  | cons component raw ih =>
    rw [forall_mem_cons] at hslash
    exact ih (all_normalizeStep h hslash.1) hslash.2

def append (base : AbsolutePath) (path : Bytes) : AbsolutePath :=
  ⟨(path.splitOn 0x2F).foldl normalizeStep base.components,
    all_foldl_normalizeStep base.valid fun _ => not_mem_of_mem_splitOn⟩

/-- A relative path is taken from the base. -/
def absolutizeFrom (path : Bytes) (base : AbsolutePath) : AbsolutePath :=
  if path.head? = some 0x2F then root.append path else base.append path

/-- `resolve_path_against_base`, where `~` stands for the home directory. -/
def resolvePathAgainstBase (home : Option AbsolutePath) (path : Text)
    (base : AbsolutePath) : AbsolutePath :=
  match path, home with
  | ['~'], some home => home
  | '~' :: '/' :: rest, some home => home.append (utf8Bytes (rest.dropWhile (· = '/')))
  | path, _ => absolutizeFrom (utf8Bytes path) base

/-- `join` with the components `first :: rest` of another path; a first
component `~` is the home directory if the text is valid. -/
def joinSuffix (path : AbsolutePath) (home : Option AbsolutePath) (first : Bytes)
    (rest : List Bytes) : AbsolutePath :=
  let suffix := first ++ rest.flatMap (0x2F :: ·)
  match home with
  | some home =>
    if first = [0x7E] && (String.fromUTF8? ⟨suffix.toArray⟩).isSome then
      home.append (rest.flatMap (0x2F :: ·))
    else path.append suffix
  | none => path.append suffix

def take (path : AbsolutePath) (n : ℕ) : AbsolutePath :=
  ⟨path.components.take n, all_eq_true.mpr fun component hcomponent =>
    all_eq_true.mp path.valid component (mem_of_mem_take hcomponent)⟩

/-- The path and everything above it but the root, from the top. -/
def steps (path : AbsolutePath) : List AbsolutePath :=
  (List.range path.components.length).map fun n => path.take (n + 1)

theorem mem_steps_iff {path other : AbsolutePath} :
    other ∈ path.steps ↔ other.components <+: path.components ∧ other ≠ root := by
  simp only [steps, mem_map, mem_range]
  constructor
  · rintro ⟨n, hn, rfl⟩
    refine ⟨?_, fun heq => ?_⟩
    · exact take_prefix _ _
    have hlength := congrArg (fun p => p.components.length) heq
    simp only [take, length_take, root, length_nil] at hlength
    omega
  · rintro ⟨hbegins, hne⟩
    have hpos : 0 < other.components.length := by
      rw [length_pos_iff]
      exact fun hnil => hne (ext hnil)
    refine ⟨other.components.length - 1, by have := hbegins.length_le; omega, ext ?_⟩
    have hsucc : other.components.length - 1 + 1 = other.components.length := by omega
    rw [hsucc]
    exact (prefix_iff_eq_take.mp hbegins).symm

def rebase (path base target : AbsolutePath) : AbsolutePath :=
  ⟨target.components ++ path.components.drop base.components.length, by
    rw [all_append, target.valid, Bool.true_and]
    exact all_eq_true.mpr fun component hcomponent =>
      all_eq_true.mp path.valid component (mem_of_mem_drop hcomponent)⟩

def toBytes (path : AbsolutePath) : Bytes :=
  if path.components.isEmpty then [0x2F] else path.components.flatMap (0x2F :: ·)

theorem head_toBytes (path : AbsolutePath) : path.toBytes.head? = some 0x2F := by
  unfold toBytes
  split
  · rfl
  next h =>
    obtain ⟨component, rest, hcons⟩ := exists_cons_of_ne_nil
      (by simpa using h : path.components ≠ [])
    simp [hcons]

theorem toBytes_ne_nil (path : AbsolutePath) : path.toBytes ≠ [] :=
  ne_nil_of_mem (mem_of_mem_head? path.head_toBytes)

end AbsolutePath

/-! ## URIs of paths -/

namespace PathUri

variable {bytes : Bytes}

theorem encodeBase64_ne_nil (h : bytes ≠ []) : encodeBase64 bytes ≠ [] := by
  intro hnil
  have hdecoded := decodeBase64_encodeBase64 bytes
  rw [hnil] at hdecoded
  exact h (Option.some.inj hdecoded).symm

theorem decodeBadPath_opaque (h : bytes ≠ []) :
    decodeBadPath none (badPathRoot ++ [encodeBase64 bytes]) = some bytes := by
  unfold decodeBadPath
  have htake : (badPathRoot ++ [encodeBase64 bytes]).take 3 = badPathRoot := rfl
  have hdrop : (badPathRoot ++ [encodeBase64 bytes]).drop 3 = [encodeBase64 bytes] := rfl
  rw [if_pos ⟨rfl, htake⟩, hdrop]
  simp [encodeBase64_ne_nil h, decodeBase64_encodeBase64]

def ofOpaqueBytes (bytes : Bytes) (h : bytes ≠ []) : PathUri where
  host := none
  segments := badPathRoot ++ [encodeBase64 bytes]
  valid := by simp [isFilePath, decodeBadPath_opaque h]

theorem isOpaque_ofOpaqueBytes (h : bytes ≠ []) : (ofOpaqueBytes bytes h).isOpaque := by
  simp [isOpaque, decodeBadPathUri, ofOpaqueBytes, decodeBadPath_opaque h]

def pathSegments (path : AbsolutePath) : List Text :=
  if path.components.isEmpty then [[]] else path.components.map encodeSegment

/-- The URI of a path; where it would be read differently the bytes are kept as they are. -/
def fromAbsPath (path : AbsolutePath) : PathUri :=
  match tryFrom none (pathSegments path) with
  | .ok uri =>
    if uri.inferPathConvention = some .posix then uri
    else ofOpaqueBytes path.toBytes path.toBytes_ne_nil
  | .error _ => ofOpaqueBytes path.toBytes path.toBytes_ne_nil

/-- The path that a URI stands for. -/
def toAbsPath (uri : PathUri) : Option AbsolutePath :=
  if uri.inferPathConvention ≠ some .posix then none
  else
    match uri.decodeBadPathUri with
    | some bytes =>
      if bytes.head? = some 0x2F then
        let path := absolutizeFrom bytes .root
        if (fromAbsPath path).sameUri uri then some path else none
      else none
    | none => some (absolutizeFrom uri.decodedPathBytes .root)

end PathUri

/-! ## Ordinary paths -/

def isDriveName : Bytes → Bool
  | [drive, 0x3A] => PathUri.isAsciiAlphabetic drive.toNat
  | _ => false

namespace AbsolutePath

/-- The path has an ordinary URI. -/
structure IsOrdinary (path : AbsolutePath) : Prop where
  nullFree : ∀ component ∈ path.components, 0 ∉ component
  noDrive : path.components.head?.any isDriveName = false

instance (path : AbsolutePath) : Decidable path.IsOrdinary :=
  decidable_of_iff
    ((∀ component ∈ path.components, 0 ∉ component) ∧ path.components.head?.any isDriveName = false)
    ⟨fun h => ⟨h.1, h.2⟩, fun h => ⟨h.nullFree, h.noDrive⟩⟩

theorem IsOrdinary.of_prefix {path other : AbsolutePath} (h : path.IsOrdinary)
    (hbegins : other.components <+: path.components) : other.IsOrdinary where
  nullFree component hcomponent := h.nullFree component (hbegins.subset hcomponent)
  noDrive := by
    cases hother : other.components with
    | nil => rfl
    | cons first rest =>
      have hhead := h.noDrive
      obtain ⟨suffix, hsuffix⟩ := hbegins
      rw [← hsuffix, hother] at hhead
      exact hhead

end AbsolutePath

namespace PathUri

theorem isDriveName_spec (drive : UInt8) :
    isWindowsDriveUriSegment (encodeSegment [drive, 0x3A]) = isAsciiAlphabetic drive.toNat := by
  revert drive
  exact forall_byte (by decide +kernel)

variable {colon : Text} {drive : Char}

theorem isDriveName_decodeBinary
    (hdrive : isAsciiAlphabetic drive.toNat) (hcolon : decodeBinary colon = [0x3A]) :
    isDriveName (decodeBinary (drive :: colon)) := by
  have hlt : drive.toNat < 128 := by
    simp only [isAsciiAlphabetic, Bool.or_eq_true, Bool.and_eq_true, decide_eq_true_eq] at hdrive
    omega
  have hpercent : drive ≠ '%' := by
    rintro rfl
    exact absurd hdrive (by decide)
  rw [decodeBinary_cons _ hpercent, utf8EncodeChar_ascii hlt, hcolon]
  simp only [singleton_append, isDriveName, UInt8.toNat_ofNat']
  rw [Nat.mod_eq_of_lt (by omega)]
  exact hdrive

theorem isWindowsDriveUriSegment_encodeSegment (component : Bytes) :
    isWindowsDriveUriSegment (encodeSegment component) = isDriveName component := by
  rw [Bool.eq_iff_iff]
  constructor
  · intro h
    have hdecoded := decodeBinary_encodeSegment component
    unfold isWindowsDriveUriSegment at h
    split at h
    iterate 3
      next heq =>
        rw [← hdecoded, heq]
        exact isDriveName_decodeBinary h (by decide)
    cases h
  · intro h
    unfold isDriveName at h
    split at h
    next drive =>
      rw [isDriveName_spec]
      exact h
    · cases h

theorem encodeSegment_ne_nil (h : component ≠ []) : encodeSegment component ≠ [] := by
  intro hnil
  have hdecoded := decodeBinary_encodeSegment component
  rw [hnil] at hdecoded
  exact h hdecoded.symm

theorem isPathComponent_spec (h : isPathComponent component) :
    component ≠ [] ∧ 0x2F ∉ component ∧ component ≠ [0x2E] ∧ component ≠ [0x2E, 0x2E] := by
  simpa [isPathComponent, and_assoc] using h

theorem filter_pathSegments (path : AbsolutePath) :
    (pathSegments path).filter (!·.isEmpty) = path.components.map encodeSegment := by
  unfold pathSegments
  split
  next h =>
    rw [List.isEmpty_iff] at h
    simp [h]
  next h =>
    rw [filter_eq_self]
    intro segment hsegment
    obtain ⟨component, hcomponent, rfl⟩ := mem_map.mp hsegment
    have hvalid := all_eq_true.mp path.valid component hcomponent
    simpa using encodeSegment_ne_nil (isPathComponent_spec hvalid).1

variable {path : AbsolutePath}

theorem all_isFileSegment_pathSegments (h : ∀ component ∈ path.components, 0 ∉ component) :
    (pathSegments path).all isFileSegment := by
  unfold pathSegments
  split
  · rfl
  · rw [all_eq_true]
    intro segment hsegment
    obtain ⟨component, hcomponent, rfl⟩ := mem_map.mp hsegment
    obtain ⟨-, -, hdot, hdots⟩ :=
      isPathComponent_spec (all_eq_true.mp path.valid component hcomponent)
    simp [isFileSegment, decodeBinary_encodeSegment, h component hcomponent, hdot, hdots]

theorem head_filter_pathSegments (path : AbsolutePath) :
    ((pathSegments path).filter (!·.isEmpty)).head?.any isWindowsDriveUriSegment =
      path.components.head?.any isDriveName := by
  rw [filter_pathSegments]
  cases path.components with
  | nil => rfl
  | cons component rest => exact isWindowsDriveUriSegment_encodeSegment component

theorem withNormalizedWindowsDriveLetter_eq {segments : List Text} (host : Option Text)
    (h : (segments.filter (!·.isEmpty)).head?.any isWindowsDriveUriSegment = false) :
    withNormalizedWindowsDriveLetter host segments = segments := by
  have hhead : (segments.filter (!·.isEmpty)).head? = (segments.dropWhile List.isEmpty).head? := by
    rw [head?_filter, find?_not_eq_head?_dropWhile]
  rw [hhead] at h
  unfold withNormalizedWindowsDriveLetter
  split
  · rfl
  · split
    next drive tail rest hdrop =>
      rw [hdrop] at h
      rw [if_neg (by simpa using h)]
    · rfl

theorem tryFrom_eq_ok {segments : List Text}
    (hdrive : (segments.filter (!·.isEmpty)).head?.any isWindowsDriveUriSegment = false)
    (hvalid : isFilePath none segments) : tryFrom none segments = .ok ⟨none, segments, hvalid⟩ := by
  unfold tryFrom
  simp only [reduceCtorEq, if_false, withNormalizedWindowsDriveLetter_eq none hdrive]
  rw [dif_pos hvalid]

theorem fromAbsPath_of_ordinary (h : path.IsOrdinary) :
    (fromAbsPath path).IsPlain ∧ (fromAbsPath path).components = path.components := by
  have hall := all_isFileSegment_pathSegments h.nullFree
  have hdrive := head_filter_pathSegments path
  rw [h.noDrive] at hdrive
  have hnonempty : pathSegments path ≠ [] := by
    unfold pathSegments
    split
    · simp
    next hcomponents => simpa using hcomponents
  have hvalid : isFilePath none (pathSegments path) := by
    simp [isFilePath, hall, hnonempty]
  have hplain : (⟨none, pathSegments path, hvalid⟩ : PathUri).IsPlain := by
    refine isPlain_of_segments rfl hall hdrive ?_
    intro segment hsegment
    rw [nonemptySegments, filter_pathSegments] at hsegment
    obtain ⟨component, hcomponent, rfl⟩ := mem_map.mp hsegment
    rw [decodeBinary_encodeSegment]
    exact (isPathComponent_spec (all_eq_true.mp path.valid component hcomponent)).2.1
  have hfrom : fromAbsPath path = ⟨none, pathSegments path, hvalid⟩ := by
    rw [fromAbsPath, tryFrom_eq_ok hdrive hvalid]
    dsimp only
    rw [if_pos hplain.posix]
  rw [hfrom]
  refine ⟨hplain, ?_⟩
  simp only [components, nonemptySegments, filter_pathSegments, map_map]
  exact (map_congr_left fun component _ => decodeBinary_encodeSegment component).trans (map_id _)

theorem inferPathConvention_of_drive {rest : List Text}
    (hdrive : isWindowsDriveUriSegment (drive :: colon))
    (hvalid : isFilePath none ((drive :: colon) :: rest)) :
    inferPathConvention ⟨none, (drive :: colon) :: rest, hvalid⟩ = some .windows := by
  have hbad : decodeBadPath none ((drive :: colon) :: rest) = none := by
    unfold decodeBadPath
    rw [if_neg]
    rintro ⟨-, htake⟩
    have hfirst : (drive :: colon) = "%00".toList := by
      have hhead := congrArg List.head? htake
      simpa [badPathRoot] using hhead
    rw [hfirst] at hdrive
    exact absurd hdrive (by decide)
  simp [inferPathConvention, decodeBadPathUri, hbad, nonemptySegments, hdrive]

theorem isAsciiAlphabetic_toUpper (drive : Char) (h : isAsciiAlphabetic drive.toNat) :
    isAsciiAlphabetic drive.toUpper.toNat := by
  have hall : ∀ n < 128, isAsciiAlphabetic n → isAsciiAlphabetic (Char.ofNat n).toUpper.toNat := by
    decide +kernel
  have hlt : drive.toNat < 128 := by
    simp only [isAsciiAlphabetic, Bool.or_eq_true, Bool.and_eq_true, decide_eq_true_eq] at h
    omega
  have hupper := hall drive.toNat hlt h
  rwa [Char.ofNat_toNat] at hupper

theorem isWindowsDriveUriSegment_toUpper (h : isWindowsDriveUriSegment (drive :: colon)) :
    isWindowsDriveUriSegment (drive.toUpper :: colon) := by
  unfold isWindowsDriveUriSegment at h
  split at h
  iterate 3
    next heq =>
      obtain ⟨rfl, rfl⟩ := List.cons.inj heq
      exact isAsciiAlphabetic_toUpper _ h
  cases h

theorem isOpaque_fromAbsPath_of_drive (h : path.components.head?.any isDriveName) :
    (fromAbsPath path).isOpaque := by
  obtain ⟨first, rest, hcons⟩ : ∃ first rest, path.components = first :: rest := by
    cases hcomponents : path.components with
    | nil => simp [hcomponents] at h
    | cons first rest => exact ⟨first, rest, rfl⟩
  have hdrive : isWindowsDriveUriSegment (encodeSegment first) := by
    rw [isWindowsDriveUriSegment_encodeSegment]
    simpa [hcons] using h
  obtain ⟨drive, colon, hsegment⟩ : ∃ drive colon, encodeSegment first = drive :: colon := by
    cases hsegment : encodeSegment first with
    | nil => simp [hsegment, isWindowsDriveUriSegment] at hdrive
    | cons drive colon => exact ⟨drive, colon, rfl⟩
  rw [hsegment] at hdrive
  have hsegments : pathSegments path = (drive :: colon) :: rest.map encodeSegment := by
    simp [pathSegments, hcons, hsegment]
  have hnormalized : withNormalizedWindowsDriveLetter none (pathSegments path) =
      (drive.toUpper :: colon) :: rest.map encodeSegment := by
    simp [withNormalizedWindowsDriveLetter, hsegments, hdrive]
  unfold fromAbsPath tryFrom
  simp only [reduceCtorEq, if_false, hnormalized]
  split
  next uri huri =>
    split at huri
    next hvalid =>
      obtain rfl := Except.ok.inj huri
      rw [if_neg]
      · exact isOpaque_ofOpaqueBytes _
      · rw [inferPathConvention_of_drive (isWindowsDriveUriSegment_toUpper hdrive)]
        simp
    · cases huri
  · exact isOpaque_ofOpaqueBytes _

theorem isOpaque_fromAbsPath (h : ¬ path.IsOrdinary) : (fromAbsPath path).isOpaque := by
  by_cases hdrive : path.components.head?.any isDriveName
  · exact isOpaque_fromAbsPath_of_drive hdrive
  have hdrive := Bool.eq_false_iff.mpr hdrive
  obtain ⟨component, hcomponent, hnull⟩ : ∃ component ∈ path.components, 0 ∈ component := by
    by_contra hnone
    push Not at hnone
    exact h ⟨hnone, hdrive⟩
  have hsegment : encodeSegment component ∈ pathSegments path := by
    unfold pathSegments
    rw [if_neg (by
      rw [List.isEmpty_iff]
      exact ne_nil_of_mem hcomponent)]
    exact mem_map_of_mem hcomponent
  have hnotFile : (pathSegments path).all isFileSegment = false := by
    rw [Bool.eq_false_iff]
    intro hall
    have hfile := all_eq_true.mp hall _ hsegment
    simp [isFileSegment, decodeBinary_encodeSegment, hnull] at hfile
  have hhead := head_filter_pathSegments path
  rw [hdrive] at hhead
  unfold fromAbsPath tryFrom
  simp only [reduceCtorEq, if_false, withNormalizedWindowsDriveLetter_eq none hhead]
  split
  next uri huri =>
    split at huri
    next hvalid =>
      obtain rfl := Except.ok.inj huri
      split
      · have hblob := hvalid
        simp only [isFilePath, hnotFile, Bool.and_eq_true] at hblob
        exact hblob.2
      · exact isOpaque_ofOpaqueBytes _
    · cases huri
  · exact isOpaque_ofOpaqueBytes _

theorem isPlain_fromAbsPath_iff (path : AbsolutePath) :
    (fromAbsPath path).IsPlain ↔ path.IsOrdinary := by
  constructor
  · intro hplain
    by_contra hnot
    have hblob := isOpaque_fromAbsPath hnot
    rw [hplain.transparent] at hblob
    cases hblob
  · exact fun h => (fromAbsPath_of_ordinary h).1

theorem inferPathConvention_fromAbsPath (path : AbsolutePath) :
    (fromAbsPath path).inferPathConvention = some .posix := by
  have hblob : (ofOpaqueBytes path.toBytes path.toBytes_ne_nil).inferPathConvention =
      some .posix := by
    simp [inferPathConvention, decodeBadPathUri, ofOpaqueBytes,
      decodeBadPath_opaque path.toBytes_ne_nil, inferOpaquePathConvention, head_toBytes]
  unfold fromAbsPath
  split
  · split
    · assumption
    · exact hblob
  · exact hblob

theorem foldl_normalizeStep_of_no_dots {parts : List Bytes} (components : List Bytes)
    (h : ∀ part ∈ parts, part ≠ [0x2E] ∧ part ≠ [0x2E, 0x2E]) :
    parts.foldl normalizeStep components = components ++ parts.filter (!·.isEmpty) := by
  induction parts generalizing components with
  | nil => simp
  | cons part parts ih =>
    rw [forall_mem_cons] at h
    rw [foldl_cons, ih _ h.2]
    cases part with
    | nil => simp [normalizeStep]
    | cons byte part => simp [normalizeStep, h.1.1, h.1.2]

variable {uri : PathUri}

theorem IsPlain.toAbsPath_spec (h : uri.IsPlain) :
    ∃ path : AbsolutePath, uri.toAbsPath = some path ∧ path.components = uri.components := by
  have hblob : uri.decodeBadPathUri = none := by
    simpa [isOpaque] using h.transparent
  have hall := all_eq_true.mp (all_isFileSegment_of_transparent h.transparent)
  refine ⟨absolutizeFrom uri.decodedPathBytes .root, ?_, ?_⟩
  · simp [toAbsPath, h.posix, hblob]
  have hparts : uri.decodedPathBytes = (uri.segments.map decodeBinary).flatMap (0x2F :: ·) := by
    rw [decodedPathBytes, flatMap_map]
  have hslash : ∀ part ∈ uri.segments.map decodeBinary, (0x2F : UInt8) ∉ part := by
    intro part hpart
    obtain ⟨segment, hsegment, rfl⟩ := mem_map.mp hpart
    by_cases hempty : segment = []
    · subst hempty
      exact not_mem_nil
    · exact h.no_separator segment
        (mem_filter.mpr ⟨hsegment, by simpa using hempty⟩)
  have hdots : ∀ part ∈ uri.segments.map decodeBinary, part ≠ [0x2E] ∧ part ≠ [0x2E, 0x2E] := by
    intro part hpart
    obtain ⟨segment, hsegment, rfl⟩ := mem_map.mp hpart
    have hfile := hall segment hsegment
    simp only [isFileSegment, Bool.and_eq_true, bne_iff_ne] at hfile
    exact ⟨hfile.1.2, hfile.2⟩
  have happend : absolutizeFrom uri.decodedPathBytes .root =
      AbsolutePath.root.append uri.decodedPathBytes := by
    unfold absolutizeFrom
    split <;> rfl
  rw [happend]
  simp only [append, hparts, splitOn_flatMap hslash, foldl_cons, AbsolutePath.root]
  rw [foldl_normalizeStep_of_no_dots _ hdots]
  simp only [normalizeStep, true_or, if_true, nil_append, filter_map]
  congr 1
  apply filter_congr
  simp [isEmpty_decodeBinary]

theorem not_isOrdinary_of_opaque (hblob : uri.isOpaque)
    (h : uri.toAbsPath = some path) : ¬ path.IsOrdinary := by
  intro hordinary
  obtain ⟨bytes, hbytes⟩ := Option.isSome_iff_exists.mp hblob
  have hplain := (fromAbsPath_of_ordinary hordinary).1
  simp only [toAbsPath, hbytes] at h
  split at h
  · cases h
  · split at h
    · split at h
      next hsame =>
        obtain rfl := Option.some.inj h
        have heq := (sameUri_iff_of_posix hplain.posix).mp hsame
        rw [heq] at hplain
        rw [hplain.transparent] at hblob
        cases hblob
      · cases h
    · cases h

/-- A name that can be joined to every path as it is. -/
structure IsPlainName (name : Text) : Prop where
  nullFree : '\x00' ∉ name
  relative : name.head? ≠ some '/'
  nonempty : name ≠ []
  single : name.splitOn '/' = [name]
  notDot : name ≠ ['.']
  notDots : name ≠ ['.', '.']
  kept : name.filter (!isTabOrNewline ·) = name
  encoded : encodeSegment (utf8Bytes name) = name
  notDrive : isWindowsDriveUriSegment name = false
  notOldDrive : driveSegment name = name
  file : isFileSegment name = true
  slashFree : 0x2F ∉ decodeBinary name

variable {name : Text}

theorem IsPlainName.decodeBinary_eq (h : IsPlainName name) :
    decodeBinary name = utf8Bytes name := by
  have hdecoded := decodeBinary_encodeSegment (utf8Bytes name)
  rwa [h.encoded] at hdecoded

theorem filter_popIfEmpty (segments : List Text) :
    (popIfEmpty segments).filter (!·.isEmpty) = segments.filter (!·.isEmpty) := by
  unfold popIfEmpty
  split
  next h =>
    simp only [Bool.and_eq_true, decide_eq_true_eq] at h
    obtain ⟨before, hbefore⟩ := getLast?_eq_some_iff.mp h.2
    simp [hbefore]
  · rfl

theorem push_plainName (segments : List Text) (h : IsPlainName name) :
    push segments name = (if segments = [[]] then [] else segments) ++ [name] := by
  simp [push, h.kept, h.notDot, h.notDots, h.encoded, h.notOldDrive]

theorem filter_push (segments : List Text) (h : IsPlainName name) :
    (push segments name).filter (!·.isEmpty) = segments.filter (!·.isEmpty) ++ [name] := by
  rw [push_plainName segments h]
  split
  next hroot => simp [hroot, h.nonempty]
  · simp [h.nonempty]

theorem fromAbsoluteNativePath_relative {path : Text} (h : path.head? ≠ some '/') :
    fromAbsoluteNativePath path = none := by
  have hparse : parsePosixPath path = none := by
    unfold parsePosixPath
    split
    · exact absurd rfl h
    · rfl
  rw [fromAbsoluteNativePath, hparse]

theorem join_plainName_spec
    (hposix : uri.inferPathConvention = some .posix) (htransparent : uri.isOpaque = false)
    (hname : IsPlainName name) :
    uri.join name = tryFrom none (push (popIfEmpty uri.segments) name) ∧
      (push (popIfEmpty uri.segments) name).filter (!·.isEmpty) = uri.nonemptySegments ++ [name] ∧
      ((push (popIfEmpty uri.segments) name).filter
        (!·.isEmpty)).head?.any isWindowsDriveUriSegment = false := by
  obtain ⟨hhost, hhead⟩ := posix_spec hposix htransparent
  have hfilter : (push (popIfEmpty uri.segments) name).filter (!·.isEmpty) =
      uri.nonemptySegments ++ [name] := by
    rw [filter_push _ hname, filter_popIfEmpty]
    rfl
  refine ⟨?_, hfilter, ?_⟩
  · have hcomponents : (joinComponents [name]
        (popIfEmpty uri.segments, uri.nonemptySegments.length)).1 =
          push (popIfEmpty uri.segments) name := by
      simp [joinComponents, hname.nonempty, hname.notDot, hname.notDots]
    unfold join
    rw [fromAbsoluteNativePath_relative hname.relative, hname.single, hhost, hcomponents]
    simp [hname.nullFree, hname.nonempty, htransparent]
  · rw [hfilter]
    cases hsegments : uri.nonemptySegments with
    | nil => simpa using hname.notDrive
    | cons segment rest =>
      rw [hsegments] at hhead
      exact hhead

/-- Below a plain directory, joining a name gives its child. -/
theorem IsPlain.join_plainName (huri : uri.IsPlain) (hname : IsPlainName name) :
    ∃ child : PathUri, uri.join name = .ok child ∧ child.IsPlain ∧
      child.components = uri.components ++ [utf8Bytes name] := by
  obtain ⟨hjoin, hfilter, hdrive⟩ := join_plainName_spec huri.posix huri.transparent hname
  have hall : (push (popIfEmpty uri.segments) name).all isFileSegment := by
    have hsegments := all_eq_true.mp (all_isFileSegment_of_transparent huri.transparent)
    rw [all_eq_true, push_plainName _ hname]
    split
    · exact forall_mem_singleton.mpr hname.file
    · exact forall_mem_append.mpr ⟨fun segment hold => hsegments segment (mem_popIfEmpty hold),
        forall_mem_singleton.mpr hname.file⟩
  have hvalid : isFilePath none (push (popIfEmpty uri.segments) name) := by
    have hne : push (popIfEmpty uri.segments) name ≠ [] := by
      simp [push_plainName _ hname]
    simp [isFilePath, hall, hne]
  refine ⟨⟨none, push (popIfEmpty uri.segments) name, hvalid⟩, ?_, ?_, ?_⟩
  · rw [hjoin, tryFrom_eq_ok hdrive hvalid]
  · refine isPlain_of_segments rfl hall hdrive ?_
    rw [nonemptySegments, hfilter]
    exact forall_mem_append.mpr ⟨huri.no_separator, forall_mem_singleton.mpr hname.slashFree⟩
  · simp only [components, nonemptySegments, hfilter, map_append, map_cons,
      map_nil, hname.decodeBinary_eq]

theorem IsPlain.joinDescendant_plainName (huri : uri.IsPlain) (hname : IsPlainName name) :
    ∃ child : PathUri, uri.joinDescendant name = .ok child ∧ child.IsPlain ∧
      child.components = uri.components ++ [utf8Bytes name] := by
  obtain ⟨child, hjoin, hchild, hcomponents⟩ := huri.join_plainName hname
  refine ⟨child, ?_, hchild, hcomponents⟩
  have hbelow : child.startsWith uri := by
    rw [hchild.startsWith_iff huri, hcomponents]
    exact prefix_append _ _
  simp [joinDescendant, hjoin, hbelow, hname.relative]

/-- Below any other directory there is no descendant. -/
theorem joinDescendant_of_not_plain
    (hposix : uri.inferPathConvention = some .posix) (hnot : ¬ uri.IsPlain)
    (hname : IsPlainName name) : ∃ error, uri.joinDescendant name = .error error := by
  by_cases hblob : uri.isOpaque
  · refine ⟨.invalidFileUriPath (toText uri.host uri.segments), ?_⟩
    simp [joinDescendant, join, hname.nullFree, hname.nonempty, hblob,
      fromAbsoluteNativePath_relative hname.relative]
  have htransparent := Bool.eq_false_iff.mpr hblob
  obtain ⟨hjoin, hfilter, hdrive⟩ := join_plainName_spec hposix htransparent hname
  by_cases hvalid : isFilePath none (push (popIfEmpty uri.segments) name)
  · rw [tryFrom_eq_ok hdrive hvalid] at hjoin
    have houtside : startsWith ⟨none, push (popIfEmpty uri.segments) name, hvalid⟩ uri = false := by
      rw [Bool.eq_false_iff]
      intro hstarts
      rcases startsWith_cases hstarts with hsame | ⟨hconvention, -, -, -, hsegments⟩
      · -- The child has one segment more than its parent.
        rw [sameUri_comm, sameUri_iff_of_posix hposix] at hsame
        have hlength := congrArg (fun u : PathUri => u.nonemptySegments.length) hsame
        simp only [nonemptySegments] at hlength hfilter
        rw [hfilter] at hlength
        simp at hlength
      · rw [hconvention, hposix] at hsegments
        exact hnot (isPlain_of_segments_isSome hposix htransparent hsegments)
    simp [joinDescendant, hjoin, houtside]
  · unfold tryFrom at hjoin
    simp only [reduceCtorEq, if_false, withNormalizedWindowsDriveLetter_eq none hdrive] at hjoin
    rw [dif_neg hvalid] at hjoin
    exact ⟨_, by rw [joinDescendant, hjoin]⟩

end PathUri

end Rexux.Path
