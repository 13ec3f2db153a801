import Rexux.Foundation.AsciiCase
import Rexux.Foundation.Outcome
import Rexux.Path.Encoding

/-!
# File URIs

A `PathUri` is a validated `file:` URL.  It is kept as the authority and the
percent-encoded segments of the URL's path, which is all that the lexical
operations look at.  Paths without a URI spelling are stored in an opaque form,
as base64 below a reserved root.

Which native convention a URI follows is read off its shape.  The operations
that resolve text against a URI are given for the POSIX convention.
-/

namespace Rexux.Path

open Foundation List

inductive PathConvention where
  | posix
  | windows
  deriving DecidableEq, Repr

/-- The segments under which paths without a URI spelling are stored. -/
def badPathRoot : List Text := ["%00".toList, "bad".toList, "path".toList]

/-- The bytes of a path that no URI can express. -/
def decodeBadPath (host : Option Text) (segments : List Text) : Option Bytes :=
  if host = none ∧ segments.take 3 = badPathRoot then
    match segments.drop 3 with
    | [encoded] =>
      if encoded.isEmpty then none
      else (decodeBase64 encoded).filter (encodeBase64 · = encoded)
    | _ => none
  else none

/-- Dot segments are resolved when a URL is parsed, and null bytes are refused. -/
def isFileSegment (segment : Text) : Bool :=
  let bytes := decodeBinary segment
  !bytes.contains 0 && bytes != [0x2E] && bytes != [0x2E, 0x2E]

/-- A path that a file URI of this form can have. -/
def isFilePath (host : Option Text) (segments : List Text) : Bool :=
  !segments.isEmpty && (segments.all isFileSegment || (decodeBadPath host segments).isSome)

/-- The authority of the URL and the segments of its path. -/
structure PathUri where
  host : Option Text
  segments : List Text
  valid : isFilePath host segments = true
  deriving DecidableEq, Repr

namespace PathUri

def toText (host : Option Text) (segments : List Text) : Text :=
  "file://".toList ++ host.getD [] ++ segments.flatMap ('/' :: ·)

variable (uri : PathUri) (convention : PathConvention)

def decodeBadPathUri : Option Bytes := decodeBadPath uri.host uri.segments

def isOpaque : Bool := uri.decodeBadPathUri.isSome

def isAsciiAlphabetic (n : ℕ) : Bool := (65 ≤ n && n ≤ 90) || (97 ≤ n && n ≤ 122)

def isWindowsDriveUriSegment : Text → Bool
  | [drive, ':'] => isAsciiAlphabetic drive.toNat
  | [drive, '%', '3', 'A'] => isAsciiAlphabetic drive.toNat
  | [drive, '%', '3', 'a'] => isAsciiAlphabetic drive.toNat
  | _ => false

/-- POSIX bytes start with a slash, Windows paths are stored as UTF-16 and start
with a drive or two backslashes. -/
def inferOpaquePathConvention (bytes : Bytes) : Option PathConvention :=
  if bytes.head? = some 0x2F then some .posix
  else if bytes.length % 2 ≠ 0 then none
  else
    match bytes with
    | low :: high :: low' :: high' :: _ =>
      if high = 0 && isAsciiAlphabetic low.toNat && low' = 0x3A && high' = 0
      then some .windows
      else if low = 0x5C && high = 0 && low' = 0x5C && high' = 0 then
        some .windows
      else none
    | _ => none

def nonemptySegments : List Text := uri.segments.filter (!·.isEmpty)

/-- A drive or a host makes a path a Windows path. -/
def inferPathConvention : Option PathConvention :=
  match uri.decodeBadPathUri with
  | some bytes => inferOpaquePathConvention bytes
  | none =>
    if uri.host.isSome then some .windows
    else if uri.nonemptySegments.head?.any isWindowsDriveUriSegment then
      some .windows
    else some .posix

def isSeparatorByte (byte : UInt8) : Bool :=
  byte = 0x2F || (convention = .windows && byte = 0x5C)

/-- The segments, unless one of them hides a separator. -/
def containmentPathSegments : Option (List Text) :=
  if uri.nonemptySegments.any fun segment =>
      (decodeBinary segment).any (isSeparatorByte convention) then none
  else some uri.nonemptySegments

/-- The number of segments, where containment can be decided. -/
def lexicalDepth : Option ℕ :=
  if uri.isOpaque then none
  else
    match uri.inferPathConvention with
    | none => none
    | some convention => (uri.containmentPathSegments convention).map List.length

def lowerByte (byte : UInt8) : UInt8 := if 65 ≤ byte && byte ≤ 90 then byte + 32 else byte

/-- The bytes by which two Windows paths are compared. -/
def windowsIdentityPathBytes : Option Bytes :=
  if uri.inferPathConvention ≠ some .windows || uri.isOpaque then none
  else if uri.segments.any fun segment =>
      (decodeBinary segment).any (isSeparatorByte .windows) then none
  else some (uri.segments.flatMap fun segment => 0x2F :: decodeBinary segment)

/-- Equality of URIs, which ignores case in Windows paths. -/
def sameUri (other : PathUri) : Bool :=
  uri = other ||
    match uri.windowsIdentityPathBytes, other.windowsIdentityPathBytes with
    | some path, some otherPath =>
      uri.host = other.host && path.map lowerByte = otherPath.map lowerByte
    | _, _ => false

def decodeUriPath (segment : Text) : Text :=
  match String.fromUTF8? ⟨(decodeBinary segment).toArray⟩ with
  | some decoded => decoded.toList
  | none => segment

def segmentsMatch (segment base : Text) : Bool :=
  match convention with
  | .posix => decodeBinary segment = decodeBinary base
  | .windows =>
    toAsciiLowercase segment = toAsciiLowercase base ||
      toAsciiLowercase (decodeUriPath segment) = toAsciiLowercase (decodeUriPath base)

def nativePathSegmentsStartWith (segments base : List Text) : Bool :=
  base.length ≤ segments.length &&
    (segments.zip base).all fun (segment, baseSegment) =>
      segmentsMatch convention segment baseSegment

/-- The path is the base or lies below it. -/
def startsWith (base : PathUri) : Bool :=
  if uri.sameUri base then true
  else if uri.isOpaque || base.isOpaque then false
  else if uri.host ≠ base.host then false
  else if uri.inferPathConvention ≠ base.inferPathConvention then false
  else
    let convention := uri.inferPathConvention.getD .posix
    match uri.containmentPathSegments convention,
        base.containmentPathSegments convention with
    | some segments, some baseSegments =>
      nativePathSegmentsStartWith convention segments baseSegments
    | _, _ => false

/-- One of the paths contains the other, if that can be decided. -/
def overlaps (other : PathUri) : Option Bool :=
  if uri.sameUri other then some true
  else
    match uri.lexicalDepth, other.lexicalDepth with
    | some _, some _ => some (uri.startsWith other || other.startsWith uri)
    | _, _ => none

/-! ## Containment of POSIX paths -/

def components : List Bytes := uri.nonemptySegments.map decodeBinary

/-- A POSIX path whose components can be told apart. -/
structure IsPlain : Prop where
  posix : uri.inferPathConvention = some .posix
  transparent : uri.isOpaque = false
  separated : uri.containmentPathSegments .posix = some uri.nonemptySegments

variable {uri : PathUri}

theorem all_isFileSegment_of_transparent (h : uri.isOpaque = false) :
    uri.segments.all isFileSegment := by
  have hvalid := uri.valid
  unfold isOpaque decodeBadPathUri at h
  simp only [isFilePath, h, Bool.or_false, Bool.and_eq_true] at hvalid
  exact hvalid.2

variable {segments : List Text}

theorem decodeBadPath_eq_none (host : Option Text)
    (h : segments.all isFileSegment) : decodeBadPath host segments = none := by
  unfold decodeBadPath
  split
  next hroot =>
    -- The reserved root starts with a null byte.
    have hmem : "%00".toList ∈ segments := by
      apply mem_of_mem_take
      rw [hroot.2]
      exact mem_cons_self
    have hnull := all_eq_true.mp h _ hmem
    exact absurd hnull (by decide)
  · rfl

theorem isPlain_of_segments (hhost : uri.host = none) (hfile : uri.segments.all isFileSegment)
    (hdrive : uri.nonemptySegments.head?.any isWindowsDriveUriSegment = false)
    (hseparator : ∀ segment ∈ uri.nonemptySegments, 0x2F ∉ decodeBinary segment) : uri.IsPlain where
  posix := by
    simp [inferPathConvention, decodeBadPathUri, decodeBadPath_eq_none _ hfile, hhost, hdrive]
  transparent := by
    simp [isOpaque, decodeBadPathUri, decodeBadPath_eq_none _ hfile]
  separated := by
    unfold containmentPathSegments
    rw [if_neg]
    simp only [any_eq_true, isSeparatorByte, Bool.or_eq_true, decide_eq_true_eq,
      reduceCtorEq, decide_false, Bool.false_and, or_false]
    rintro ⟨segment, hsegment, byte, hbyte, rfl⟩
    exact hseparator segment hsegment hbyte

theorem isPlain_of_lexicalDepth {depth : ℕ}
    (hposix : uri.inferPathConvention = some .posix) (hdepth : uri.lexicalDepth = some depth) :
    uri.IsPlain ∧ depth = uri.components.length := by
  unfold lexicalDepth at hdepth
  cases hblob : uri.isOpaque with
  | true => simp [hblob] at hdepth
  | false =>
    simp only [hblob, hposix, Bool.false_eq_true, if_false, Option.map_eq_some_iff] at hdepth
    obtain ⟨segments, hsegments, rfl⟩ := hdepth
    have heq : segments = uri.nonemptySegments := by
      unfold containmentPathSegments at hsegments
      split_ifs at hsegments
      exact (Option.some.inj hsegments).symm
    subst heq
    exact ⟨⟨hposix, hblob, hsegments⟩, by simp [components]⟩

theorem IsPlain.lexicalDepth_eq (h : uri.IsPlain) :
    uri.lexicalDepth = some uri.components.length := by
  simp [lexicalDepth, h.transparent, h.posix, h.separated, components]

/-- A transparent POSIX path has no host and no drive. -/
theorem posix_spec (hposix : uri.inferPathConvention = some .posix)
    (htransparent : uri.isOpaque = false) :
    uri.host = none ∧ uri.nonemptySegments.head?.any isWindowsDriveUriSegment = false := by
  have hblob : uri.decodeBadPathUri = none := by
    simpa [isOpaque] using htransparent
  simp only [inferPathConvention, hblob] at hposix
  split at hposix
  · cases hposix
  next hhost =>
    split at hposix
    · cases hposix
    next hdrive =>
      exact ⟨by simpa using hhost, Bool.eq_false_iff.mpr hdrive⟩

theorem IsPlain.host_eq_none (h : uri.IsPlain) : uri.host = none :=
  (posix_spec h.posix h.transparent).1

theorem IsPlain.head_not_drive (h : uri.IsPlain) :
    uri.nonemptySegments.head?.any isWindowsDriveUriSegment = false :=
  (posix_spec h.posix h.transparent).2

theorem IsPlain.no_separator (h : uri.IsPlain) :
    ∀ segment ∈ uri.nonemptySegments, 0x2F ∉ decodeBinary segment := by
  have hseparated := h.separated
  unfold containmentPathSegments at hseparated
  split_ifs at hseparated with hnone
  intro segment hsegment hbyte
  apply hnone
  rw [any_eq_true]
  exact ⟨segment, hsegment, any_eq_true.mpr ⟨_, hbyte, rfl⟩⟩

variable {other : PathUri}

theorem sameUri_iff_of_posix (hposix : uri.inferPathConvention = some .posix) :
    uri.sameUri other ↔ uri = other := by
  simp [sameUri, windowsIdentityPathBytes, hposix]

theorem sameUri_comm (uri other : PathUri) : uri.sameUri other = other.sameUri uri := by
  unfold sameUri
  cases uri.windowsIdentityPathBytes with
  | none => cases other.windowsIdentityPathBytes <;> simp [eq_comm]
  | some path =>
    cases other.windowsIdentityPathBytes with
    | none => simp [eq_comm]
    | some otherPath =>
      simp only [eq_comm (a := uri), eq_comm (a := uri.host), eq_comm (a := path.map lowerByte)]

theorem nativePathSegmentsStartWith_posix (segments base : List Text) :
    nativePathSegmentsStartWith .posix segments base ↔
      base.map decodeBinary <+: segments.map decodeBinary := by
  induction base generalizing segments with
  | nil => simp [nativePathSegmentsStartWith]
  | cons first base ih =>
    cases segments with
    | nil => simp [nativePathSegmentsStartWith]
    | cons segment segments =>
      have ih' := ih segments
      simp only [nativePathSegmentsStartWith, length_cons, Nat.add_le_add_iff_right, zip_cons_cons,
        all_cons, segmentsMatch, Bool.and_eq_true, decide_eq_true_eq, map_cons, cons_prefix_cons,
        ← ih']
      tauto

variable {base : PathUri}

theorem IsPlain.startsWith_iff (huri : uri.IsPlain) (hbase : base.IsPlain) :
    uri.startsWith base ↔ base.components <+: uri.components := by
  unfold startsWith
  by_cases hsame : uri.sameUri base
  · rw [if_pos hsame, (sameUri_iff_of_posix huri.posix).mp hsame]
    simp
  · simp only [hsame, huri.transparent, hbase.transparent, huri.host_eq_none, hbase.host_eq_none,
      huri.posix, hbase.posix, huri.separated, hbase.separated, Option.getD_some]
    exact nativePathSegmentsStartWith_posix _ _

/-- One path starts with another by equal text or by its segments. -/
theorem startsWith_cases (h : uri.startsWith base) :
    uri.sameUri base ∨
      (uri.inferPathConvention = base.inferPathConvention ∧
        uri.isOpaque = false ∧ base.isOpaque = false ∧
        (uri.containmentPathSegments (uri.inferPathConvention.getD .posix)).isSome ∧
        (base.containmentPathSegments (uri.inferPathConvention.getD .posix)).isSome) := by
  unfold startsWith at h
  by_cases hsame : uri.sameUri base
  · exact .inl hsame
  rw [if_neg hsame] at h
  split at h
  · cases h
  next hblob =>
    split at h
    · cases h
    next hhost =>
      split at h
      · cases h
      next hconvention =>
        simp only [Bool.or_eq_true, not_or, Bool.not_eq_true] at hblob
        refine .inr ⟨not_not.mp hconvention, hblob.1, hblob.2, ?_⟩
        dsimp only at h
        split at h
        next hsegments hbase => simp [hsegments, hbase]
        · cases h

theorem isPlain_of_segments_isSome (hposix : uri.inferPathConvention = some .posix)
    (htransparent : uri.isOpaque = false)
    (hsegments : (uri.containmentPathSegments .posix).isSome) : uri.IsPlain := by
  obtain ⟨segments, hsegments⟩ := Option.isSome_iff_exists.mp hsegments
  have hdepth : uri.lexicalDepth = some segments.length := by
    simp [lexicalDepth, htransparent, hposix, hsegments]
  exact (isPlain_of_lexicalDepth hposix hdepth).1

theorem IsPlain.of_startsWith (huri : uri.IsPlain) (h : uri.startsWith base) : base.IsPlain := by
  rcases startsWith_cases h with hsame | ⟨hconvention, -, htransparent, -, hsegments⟩
  · rw [← (sameUri_iff_of_posix huri.posix).mp hsame]
    exact huri
  · rw [huri.posix] at hsegments
    exact isPlain_of_segments_isSome (hconvention ▸ huri.posix) htransparent hsegments

theorem IsPlain.of_startsWith_base (hbase : base.IsPlain)
    (h : uri.startsWith base) : uri.IsPlain := by
  rcases startsWith_cases h with hsame | ⟨hconvention, htransparent, -, hsegments, -⟩
  · rw [sameUri_comm] at hsame
    rw [← (sameUri_iff_of_posix hbase.posix).mp hsame]
    exact hbase
  · rw [hconvention, hbase.posix] at hsegments
    exact isPlain_of_segments_isSome (hconvention ▸ hbase.posix) htransparent hsegments

/-- Plain paths overlap if one starts with the other. -/
theorem IsPlain.overlaps_eq (huri : uri.IsPlain) (hother : other.IsPlain) :
    uri.overlaps other = some (uri.startsWith other || other.startsWith uri) := by
  unfold overlaps
  by_cases hsame : uri.sameUri other
  · simp [hsame, startsWith]
  · simp [hsame, huri.lexicalDepth_eq, hother.lexicalDepth_eq]

/-! ## Parents -/

def popIfEmpty (segments : List Text) : List Text :=
  if 1 < segments.length && segments.getLast? = some [] then segments.dropLast
  else segments

/-- The path `/` has one empty segment. -/
def pop (segments : List Text) : List Text :=
  if segments.length ≤ 1 then [[]] else segments.dropLast

theorem mem_pop {segment : Text} (h : segment ∈ pop segments) :
    segment = [] ∨ segment ∈ segments := by
  unfold pop at h
  split at h
  · exact .inl (mem_singleton.mp h)
  · exact .inr (dropLast_subset _ h)

theorem mem_popIfEmpty {segment : Text}
    (h : segment ∈ popIfEmpty segments) : segment ∈ segments := by
  unfold popIfEmpty at h
  split at h
  · exact dropLast_subset _ h
  · exact h

theorem pop_ne_nil (segments : List Text) : pop segments ≠ [] := by
  unfold pop
  split
  · simp
  · intro h
    have hlength := congrArg List.length h
    rw [length_dropLast, length_nil] at hlength
    omega

theorem all_isFileSegment_pop (h : uri.isOpaque = false) :
    (pop (popIfEmpty uri.segments)).all isFileSegment := by
  have hall := all_eq_true.mp (all_isFileSegment_of_transparent h)
  rw [all_eq_true]
  intro segment hsegment
  rcases mem_pop hsegment with rfl | hmem
  · rfl
  · exact hall segment (mem_popIfEmpty hmem)

theorem isFilePath_pop (h : uri.isOpaque = false) :
    isFilePath uri.host (pop (popIfEmpty uri.segments)) := by
  simp [isFilePath, all_isFileSegment_pop h, pop_ne_nil]

/-- The number of segments that belong to the root. -/
def anchorDepth : PathConvention → ℕ
  | .posix => 0
  | .windows => 1

/-- The path without its last segment. -/
def parent (uri : PathUri) : Option PathUri :=
  if h : uri.isOpaque = false then
    match uri.inferPathConvention with
    | none => none
    | some convention =>
      if uri.nonemptySegments.length ≤ anchorDepth convention then none
      else some ⟨uri.host, pop (popIfEmpty uri.segments), isFilePath_pop h⟩
  else none

/-- The last of the ancestors, looking at no more than `fuel` parents. -/
def lastAncestor : ℕ → PathUri → PathUri
  | 0, uri => uri
  | fuel + 1, uri =>
    match uri.parent with
    | none => uri
    | some parent => lastAncestor fuel parent

/-- Each parent has fewer segments or fewer that are not empty. -/
def ancestorBound (uri : PathUri) : ℕ := uri.segments.length + uri.nonemptySegments.length

def rootAncestor (uri : PathUri) : PathUri := lastAncestor uri.ancestorBound uri

theorem nonemptySegments_pop_isPrefix (segments : List Text) :
    (pop (popIfEmpty segments)).filter (!·.isEmpty) <+: segments.filter (!·.isEmpty) := by
  have hdrop : ∀ l : List Text, (pop l).filter (!·.isEmpty) <+: l.filter (!·.isEmpty) := by
    intro l
    unfold pop
    split
    · exact nil_prefix
    · exact l.dropLast_prefix.filter _
  refine (hdrop _).trans ?_
  unfold popIfEmpty
  split
  · exact segments.dropLast_prefix.filter _
  · exact prefix_rfl

theorem IsPlain.of_prefix (h : uri.IsPlain) (hhost : other.host = none)
    (hfile : other.segments.all isFileSegment)
    (hbegins : other.nonemptySegments <+: uri.nonemptySegments) : other.IsPlain := by
  refine isPlain_of_segments hhost hfile ?_ ?_
  · have hdrive := h.head_not_drive
    cases hother : other.nonemptySegments with
    | nil => rfl
    | cons segment rest =>
      obtain ⟨tail, htail⟩ := hother ▸ hbegins
      rw [← htail] at hdrive
      exact hdrive
  · intro segment hsegment
    exact h.no_separator segment (hbegins.subset hsegment)

theorem length_popIfEmpty_le (segments : List Text) :
    (popIfEmpty segments).length ≤ segments.length := by
  unfold popIfEmpty
  split <;> simp

theorem length_pop_add_lt (h : 0 < (segments.filter (!·.isEmpty)).length) :
    (pop (popIfEmpty segments)).length + ((pop (popIfEmpty segments)).filter (!·.isEmpty)).length <
      segments.length + (segments.filter (!·.isEmpty)).length := by
  have hlength : (segments.filter (!·.isEmpty)).length ≤ segments.length := length_filter_le _ _
  have hbegins := (nonemptySegments_pop_isPrefix segments).length_le
  have hpop := length_popIfEmpty_le segments
  by_cases hshort : (popIfEmpty segments).length ≤ 1
  · have hroot : pop (popIfEmpty segments) = [[]] := if_pos hshort
    rw [hroot]
    simp only [length_singleton, filter_cons, isEmpty_nil, Bool.not_true,
      Bool.false_eq_true, if_false, filter_nil, length_nil]
    omega
  · have hdrop : (pop (popIfEmpty segments)).length = (popIfEmpty segments).length - 1 := by
      rw [pop, if_neg hshort, length_dropLast]
    omega

section

variable (h : uri.IsPlain)
include h

theorem IsPlain.parent_spec {parent : PathUri} (hparent : uri.parent = some parent) :
    parent.IsPlain ∧ parent.ancestorBound < uri.ancestorBound := by
  unfold PathUri.parent at hparent
  rw [dif_pos h.transparent, h.posix] at hparent
  simp only [anchorDepth, Nat.le_zero_eq] at hparent
  split_ifs at hparent with hdepth
  obtain rfl := Option.some.inj hparent
  have hbegins := nonemptySegments_pop_isPrefix uri.segments
  exact ⟨h.of_prefix h.host_eq_none (all_isFileSegment_pop h.transparent) hbegins,
    length_pop_add_lt (Nat.pos_of_ne_zero hdepth)⟩

theorem IsPlain.components_of_parent_eq_none
    (hparent : uri.parent = none) : uri.components = [] := by
  unfold PathUri.parent at hparent
  rw [dif_pos h.transparent, h.posix] at hparent
  simp only [anchorDepth, Nat.le_zero_eq] at hparent
  split_ifs at hparent with hdepth
  rw [length_eq_zero_iff] at hdepth
  simp [components, hdepth]

theorem IsPlain.lastAncestor_spec {fuel : ℕ} (hfuel : uri.ancestorBound ≤ fuel) :
    (lastAncestor fuel uri).IsPlain ∧ (lastAncestor fuel uri).components = [] := by
  induction fuel generalizing uri with
  | zero =>
    have hempty : uri.nonemptySegments.length = 0 := by
      unfold ancestorBound at hfuel
      omega
    exact ⟨h, by simpa [components, lastAncestor] using hempty⟩
  | succ fuel ih =>
    unfold lastAncestor
    cases hparent : uri.parent with
    | none => exact ⟨h, h.components_of_parent_eq_none hparent⟩
    | some parent =>
      obtain ⟨hplain, hlt⟩ := h.parent_spec hparent
      exact ih hplain (by omega)

theorem IsPlain.rootAncestor_spec : uri.rootAncestor.IsPlain ∧ uri.rootAncestor.components = [] :=
  h.lastAncestor_spec le_rfl

end

/-! ## Joining -/

inductive PathUriParseError where
  | invalidFileUriPath (path : Text)
  | joinPathMustBeDescendant (path : Text)
  deriving DecidableEq, Repr

/-- Drive letters are kept in upper case. -/
def withNormalizedWindowsDriveLetter (host : Option Text) (segments : List Text) : List Text :=
  if host.isSome then segments
  else
    match segments.dropWhile List.isEmpty with
    | (drive :: tail) :: rest =>
      if isWindowsDriveUriSegment (drive :: tail) then
        segments.takeWhile List.isEmpty ++ (drive.toUpper :: tail) :: rest
      else segments
    | _ => segments

def tryFrom (host : Option Text) (segments : List Text) : Except PathUriParseError PathUri :=
  let host := if host = some "localhost".toList then none else host
  let normalized := withNormalizedWindowsDriveLetter host segments
  if h : isFilePath host normalized = true then .ok ⟨host, normalized, h⟩
  else .error (.invalidFileUriPath (toText host segments))

def fromOpaquePathBytes (bytes : Bytes) : Option PathUri :=
  (tryFrom none (badPathRoot ++ [encodeBase64 bytes])).toOption

/-- A first segment `C|` is the old spelling of a drive. -/
def driveSegment : Text → Text
  | [drive, '|'] =>
    if isAsciiAlphabetic drive.toNat then [drive, ':'] else [drive, '|']
  | segment => segment

/-- Characters that the parser of URLs passes over. -/
def isTabOrNewline (c : Char) : Bool := c = '\t' || c = '\n' || c = '\r'

/-- A name is parsed as a segment when it is pushed: without its tabs and line
breaks it may turn out to be a dot segment, which is resolved. -/
def push (segments : List Text) (name : Text) : List Text :=
  let above := if segments = [[]] then [] else segments
  let kept := name.filter (!isTabOrNewline ·)
  if kept = ".".toList then above ++ [[]]
  else if kept = "..".toList then above.dropLast ++ [[]]
  else
    let segment := encodeSegment (utf8Bytes kept)
    above ++ [if above.isEmpty then driveSegment segment else segment]

def normalizeSegments : List Text → List Text × Bool → List Text × Bool
  | [], state => state
  | segment :: rest, (normalized, _) =>
    normalizeSegments rest
      (if segment.isEmpty then (normalized, true)
      else if segment = ".".toList then (normalized, false)
      else if segment = "..".toList then (normalized.dropLast, false)
      else (normalized ++ [segment], false))

/-- `path_uri_from_segments` for the POSIX convention. -/
def pathUriFromSegments (segments : List Text) : Option PathUri :=
  let (normalized, trailing) := normalizeSegments segments ([], false)
  let normalized := if trailing then normalized ++ [[]] else normalized
  (tryFrom none (normalized.foldl push [[]])).toOption

/-- The path without its leading separator, if it is absolute. -/
def parsePosixPath (path : Text) : Option PathUri :=
  match path with
  | '/' :: rest =>
    if rest.contains '\x00' then fromOpaquePathBytes (utf8Bytes path)
    else pathUriFromSegments (rest.splitOn '/')
  | _ => none

/-- `from_absolute_native_path` for the POSIX convention. -/
def fromAbsoluteNativePath (path : Text) : Option PathUri :=
  match parsePosixPath path with
  | none => none
  | some uri =>
    if uri.inferPathConvention = some .posix then some uri
    else fromOpaquePathBytes (utf8Bytes path)

/-- Append the components of a relative path; dots never leave the root. -/
def joinComponents : List Text → List Text × ℕ → List Text × ℕ
  | [], state => state
  | component :: rest, (segments, depth) =>
    joinComponents rest
      (if component.isEmpty || component = ".".toList then (segments, depth)
      else if component = "..".toList then
        if 0 < depth then (pop segments, depth - 1) else (segments, depth)
      else (push segments component, depth + 1))

/-- `join` for a URI of the POSIX convention. -/
def join (uri : PathUri) (path : Text) : Except PathUriParseError PathUri :=
  if path.contains '\x00' then .error (.invalidFileUriPath path)
  else if path.isEmpty then .ok uri
  else
    match fromAbsoluteNativePath path with
    | some absolute => .ok absolute
    | none =>
      if uri.isOpaque then
        .error (.invalidFileUriPath (toText uri.host uri.segments))
      else
        tryFrom uri.host (joinComponents (path.splitOn '/')
          (popIfEmpty uri.segments, uri.nonemptySegments.length)).1

/-- `join_descendant` for a URI of the POSIX convention. -/
def joinDescendant (uri : PathUri) (path : Text) : Except PathUriParseError PathUri :=
  match uri.join path with
  | .error e => .error e
  | .ok descendant =>
    if path.head? = some '/' || !descendant.startsWith uri then
      .error (.joinPathMustBeDescendant path)
    else .ok descendant

/-- `inferred_native_path_string` for a URI of the POSIX convention. -/
def inferredNativePathString (uri : PathUri) : Text :=
  match uri.decodeBadPathUri with
  | some bytes => fromUtf8Lossy bytes
  | none => uri.segments.flatMap fun segment => '/' :: fromUtf8Lossy (decodeBinary segment)

def decodedPathBytes (uri : PathUri) : Bytes :=
  uri.segments.flatMap fun segment => 0x2F :: decodeBinary segment

end PathUri

end Rexux.Path
