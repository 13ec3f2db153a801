import Rexux.Foundation.Text

/-!
# Encodings of paths

The segments of a URI hold the bytes of file names in percent encoding, and
paths without a URI spelling are kept in base64.  Both encodings are decoded
without loss.  Text is encoded as UTF-8; a decoder that replaces malformed
sequences renders paths for display.

The encodings are those of the crates that the source calls: segments are
encoded as `url` does it, decoded as `urlencoding` does it, and base64 is the
URL-safe alphabet of `base64` without padding.
-/

namespace Rexux.Path

open Foundation List

abbrev Bytes := List UInt8

def hexValue (c : Char) : Option ℕ :=
  if '0' ≤ c ∧ c ≤ '9' then some (c.toNat - 48)
  else if 'A' ≤ c ∧ c ≤ 'F' then some (c.toNat - 55)
  else if 'a' ≤ c ∧ c ≤ 'f' then some (c.toNat - 87)
  else none

def hexByte (high low : Char) : Option UInt8 :=
  match hexValue high, hexValue low with
  | some h, some l => some (UInt8.ofNat (16 * h + l))
  | _, _ => none

/-- Percent decoding; a percent sign without two digits stands for itself. -/
def decodeBinary : Text → Bytes
  | [] => []
  | '%' :: high :: low :: rest =>
    match hexByte high low with
    | some byte => byte :: decodeBinary rest
    | none => 0x25 :: decodeBinary (high :: low :: rest)
  | c :: rest => String.utf8EncodeChar c ++ decodeBinary rest

def hexDigit (n : ℕ) : Char := if n < 10 then Char.ofNat (48 + n) else Char.ofNat (55 + n)

/-- A byte as the crate `url` writes it. -/
def percentByte (byte : UInt8) : Text :=
  ['%', hexDigit (byte.toNat / 16), hexDigit (byte.toNat % 16)]

/-- The printable characters that a path segment cannot hold as they are. -/
def isReservedInSegment (c : Char) : Bool := c ∈ " \"#<>?`^\x7b\x7d/%\\".toList

def isSegmentByte (byte : UInt8) : Bool :=
  0x20 < byte && byte < 0x7F && !isReservedInSegment (Char.ofNat byte.toNat)

/-- A path segment as the crate `url` encodes it. -/
def encodeSegment (bytes : Bytes) : Text :=
  bytes.flatMap fun byte =>
    if isSegmentByte byte then [Char.ofNat byte.toNat] else percentByte byte

theorem forall_byte {P : UInt8 → Prop} (h : ∀ n < 256, P (UInt8.ofNat n))
    (byte : UInt8) : P byte := by
  have hbyte := h byte.toNat byte.toNat_lt
  rwa [UInt8.ofNat_toNat] at hbyte

theorem hexValue_hexDigit : ∀ n < 16, hexValue (hexDigit n) = some n := by
  decide

variable (byte : UInt8)

theorem hexByte_percentByte :
    hexByte (hexDigit (byte.toNat / 16)) (hexDigit (byte.toNat % 16)) = some byte := by
  have hlt := byte.toNat_lt
  rw [hexByte, hexValue_hexDigit _ (by omega), hexValue_hexDigit _ (by omega)]
  have hsum : 16 * (byte.toNat / 16) + byte.toNat % 16 = byte.toNat := by omega
  simp only [hsum, UInt8.ofNat_toNat]

theorem decodeBinary_percentByte (rest : Text) :
    decodeBinary (percentByte byte ++ rest) = byte :: decodeBinary rest := by
  simp only [percentByte, cons_append, nil_append, decodeBinary, hexByte_percentByte]

theorem decodeBinary_cons {c : Char} (rest : Text) (h : c ≠ '%') :
    decodeBinary (c :: rest) = String.utf8EncodeChar c ++ decodeBinary rest := by
  rw [decodeBinary]
  intro high low rest' hc
  exact absurd hc h

theorem decodeBinary_eq_nil_iff (t : Text) : decodeBinary t = [] ↔ t = [] := by
  fun_cases decodeBinary t with
  | case1 => simp
  | case2 high low rest byte hbyte => simp
  | case3 high low rest hbyte => simp
  | case4 c rest hpercent => simp

theorem isEmpty_decodeBinary (t : Text) : (decodeBinary t).isEmpty = t.isEmpty := by
  rw [Bool.eq_iff_iff, List.isEmpty_iff, List.isEmpty_iff, decodeBinary_eq_nil_iff]

theorem segmentByte_spec :
    isSegmentByte byte →
      Char.ofNat byte.toNat ≠ '%' ∧
        String.utf8EncodeChar (Char.ofNat byte.toNat) = [byte] := by
  revert byte
  exact forall_byte (by decide +kernel)

variable (bytes : Bytes)

theorem decodeBinary_encodeSegment :
    decodeBinary (encodeSegment bytes) = bytes := by
  induction bytes with
  | nil => rfl
  | cons byte bytes ih =>
    have hcons : encodeSegment (byte :: bytes) =
        (if isSegmentByte byte then [Char.ofNat byte.toNat] else percentByte byte) ++
          encodeSegment bytes := rfl
    rw [hcons]
    split
    next hsegment =>
      obtain ⟨hpercent, hencode⟩ := segmentByte_spec byte hsegment
      rw [singleton_append, decodeBinary_cons _ hpercent, hencode, ih]
      rfl
    · rw [decodeBinary_percentByte, ih]

def base64Value (c : Char) : Option ℕ :=
  if 'A' ≤ c ∧ c ≤ 'Z' then some (c.toNat - 65)
  else if 'a' ≤ c ∧ c ≤ 'z' then some (c.toNat - 71)
  else if '0' ≤ c ∧ c ≤ '9' then some (c.toNat + 4)
  else if c = '-' then some 62
  else if c = '_' then some 63
  else none

def base64Digit (n : ℕ) : Char :=
  if n < 26 then Char.ofNat (n + 65)
  else if n < 52 then Char.ofNat (n + 71)
  else if n < 62 then Char.ofNat (n - 4)
  else if n = 62 then '-'
  else '_'

/-- The URL-safe alphabet without padding. -/
def encodeBase64 : Bytes → Text
  | [] => []
  | [a] => [base64Digit (a.toNat / 4), base64Digit (a.toNat % 4 * 16)]
  | [a, b] =>
    [base64Digit (a.toNat / 4), base64Digit (a.toNat % 4 * 16 + b.toNat / 16),
      base64Digit (b.toNat % 16 * 4)]
  | a :: b :: c :: rest =>
    base64Digit (a.toNat / 4) ::
      base64Digit (a.toNat % 4 * 16 + b.toNat / 16) ::
      base64Digit (b.toNat % 16 * 4 + c.toNat / 64) ::
      base64Digit (c.toNat % 64) :: encodeBase64 rest

/-- Decoding; bits that encode nothing have to be zero. -/
def decodeSextets : List ℕ → Option Bytes
  | [] => some []
  | [_] => none
  | [a, b] =>
    if b % 16 = 0 then some [UInt8.ofNat (a * 4 + b / 16)] else none
  | [a, b, c] =>
    if c % 4 = 0 then
      some [UInt8.ofNat (a * 4 + b / 16), UInt8.ofNat (b % 16 * 16 + c / 4)]
    else none
  | a :: b :: c :: d :: rest =>
    (decodeSextets rest).map fun bytes =>
      UInt8.ofNat (a * 4 + b / 16) :: UInt8.ofNat (b % 16 * 16 + c / 4) ::
        UInt8.ofNat (c % 4 * 64 + d) :: bytes

/-- The URL-safe alphabet without padding; unused bits have to be zero. -/
def decodeBase64 (t : Text) : Option Bytes := (t.mapM base64Value).bind decodeSextets

theorem base64Value_base64Digit : ∀ n < 64, base64Value (base64Digit n) = some n := by
  decide

theorem mapM_base64Value_digits (sextets : List ℕ) (h : ∀ n ∈ sextets, n < 64) :
    (sextets.map base64Digit).mapM base64Value = some sextets := by
  induction sextets with
  | nil => rfl
  | cons n sextets ih =>
    rw [forall_mem_cons] at h
    simp [base64Value_base64Digit n h.1, ih h.2]

def sextets : Bytes → List ℕ
  | [] => []
  | [a] => [a.toNat / 4, a.toNat % 4 * 16]
  | [a, b] => [a.toNat / 4, a.toNat % 4 * 16 + b.toNat / 16, b.toNat % 16 * 4]
  | a :: b :: c :: rest =>
    a.toNat / 4 :: (a.toNat % 4 * 16 + b.toNat / 16) ::
      (b.toNat % 16 * 4 + c.toNat / 64) :: c.toNat % 64 :: sextets rest

theorem encodeBase64_eq : encodeBase64 bytes = (sextets bytes).map base64Digit := by
  induction bytes using sextets.induct with
  | case1 | case2 | case3 => rfl
  | case4 a b c rest ih => simp [encodeBase64, sextets, ih]

theorem sextets_lt : ∀ n ∈ sextets bytes, n < 64 := by
  induction bytes using sextets.induct with
  | case1 => simp [sextets]
  | case2 a =>
    have ha := a.toNat_lt
    simp only [sextets, forall_mem_cons, not_mem_nil, false_imp_iff, implies_true, and_true]
    omega
  | case3 a b =>
    have ha := a.toNat_lt
    have hb := b.toNat_lt
    simp only [sextets, forall_mem_cons, not_mem_nil, false_imp_iff, implies_true, and_true]
    omega
  | case4 a b c rest ih =>
    have ha := a.toNat_lt
    have hb := b.toNat_lt
    have hc := c.toNat_lt
    simp only [sextets, forall_mem_cons]
    refine ⟨?_, ?_, ?_, ?_, ih⟩ <;> omega

theorem ofNat_eq {n : ℕ} (h : n = byte.toNat) : UInt8.ofNat n = byte := by
  rw [h, UInt8.ofNat_toNat]

theorem decodeSextets_sextets : decodeSextets (sextets bytes) = some bytes := by
  induction bytes using sextets.induct with
  | case1 => rfl
  | case2 a => rw [sextets, decodeSextets, if_pos (by omega), ofNat_eq a (by omega)]
  | case3 a b =>
    have hb := b.toNat_lt
    rw [sextets, decodeSextets, if_pos (by omega), ofNat_eq a (by omega), ofNat_eq b (by omega)]
  | case4 a b c rest ih =>
    have hb := b.toNat_lt
    have hc := c.toNat_lt
    rw [sextets, decodeSextets, ih, ofNat_eq a (by omega),
      ofNat_eq b (by omega), ofNat_eq c (by omega)]
    rfl

theorem decodeBase64_encodeBase64 :
    decodeBase64 (encodeBase64 bytes) = some bytes := by
  rw [decodeBase64, encodeBase64_eq, mapM_base64Value_digits _ (sextets_lt bytes)]
  exact decodeSextets_sextets bytes

def utf8Bytes (t : Text) : Bytes := t.flatMap String.utf8EncodeChar

theorem utf8EncodeChar_spec (c : Char) :
    c.toNat < 128 ∧ String.utf8EncodeChar c = [UInt8.ofNat c.toNat] ∨
      ∀ byte ∈ String.utf8EncodeChar c, 128 ≤ byte.toNat := by
  unfold String.utf8EncodeChar
  dsimp only
  split
  next h => exact .inl ⟨Nat.lt_succ_of_le h, rfl⟩
  next h =>
    repeat' split
    all_goals
      simp only [forall_mem_cons, not_mem_nil, false_imp_iff, implies_true, and_true,
        UInt8.toNat_ofNat']
      omega

theorem utf8EncodeChar_ascii {c : Char} (h : c.toNat < 128) :
    String.utf8EncodeChar c = [UInt8.ofNat c.toNat] := by
  unfold String.utf8EncodeChar
  rw [if_pos (show c.val.toNat ≤ 127 from Nat.le_of_lt_succ h)]
  rfl

theorem mem_utf8EncodeChar_iff {c d : Char} (h : d.toNat < 128) :
    UInt8.ofNat d.toNat ∈ String.utf8EncodeChar c ↔ c = d := by
  constructor
  · intro hmem
    have hbyte : (UInt8.ofNat d.toNat).toNat = d.toNat := by
      rw [UInt8.toNat_ofNat']
      omega
    rcases utf8EncodeChar_spec c with ⟨hlt, heq⟩ | hge
    · rw [heq, mem_singleton] at hmem
      have hnat := congrArg UInt8.toNat hmem
      rw [UInt8.toNat_ofNat', UInt8.toNat_ofNat'] at hnat
      have heqNat : c.toNat = d.toNat := by omega
      rw [← Char.ofNat_toNat c, heqNat, Char.ofNat_toNat]
    · have hle := hge _ hmem
      omega
  · rintro rfl
    rw [utf8EncodeChar_ascii h]
    exact mem_singleton_self _

theorem utf8Bytes_cons (c : Char) (t : Text) :
    utf8Bytes (c :: t) = String.utf8EncodeChar c ++ utf8Bytes t := rfl

def isContinuationByte : Bool := 0x80 ≤ byte && byte ≤ 0xBF

def isSecondByte (first second : UInt8) : Bool :=
  if first = 0xE0 then 0xA0 ≤ second && second ≤ 0xBF
  else if first = 0xED then 0x80 ≤ second && second ≤ 0x9F
  else if first = 0xF0 then 0x90 ≤ second && second ≤ 0xBF
  else if first = 0xF4 then 0x80 ≤ second && second ≤ 0x8F
  else isContinuationByte second

def continuationBits : ℕ := byte.toNat % 64

/-- The first character of nonempty bytes and the number of bytes it takes; a
malformed sequence is replaced up to the first byte that does not fit. -/
def decodeFirst : Bytes → Char × ℕ
  | a :: b :: c :: d :: _ =>
    if a < 0x80 then (Char.ofNat a.toNat, 1)
    else if 0xC2 ≤ a && a ≤ 0xDF && isContinuationByte b then
      (Char.ofNat (a.toNat % 32 * 64 + continuationBits b), 2)
    else if 0xE0 ≤ a && a ≤ 0xF4 && isSecondByte a b then
      if !isContinuationByte c then ('\uFFFD', 2)
      else if a ≤ 0xEF then
        (Char.ofNat ((a.toNat % 16 * 64 + continuationBits b) * 64 + continuationBits c), 3)
      else if isContinuationByte d then
        (Char.ofNat (((a.toNat % 8 * 64 + continuationBits b) * 64 +
          continuationBits c) * 64 + continuationBits d), 4)
      else ('\uFFFD', 3)
    else ('\uFFFD', 1)
  | _ => ('\uFFFD', 1)

def decodeLossy : ℕ → Bytes → Text
  | 0, _ => []
  | fuel + 1, bytes =>
    if bytes.isEmpty then []
    else
      let (c, width) := decodeFirst (bytes ++ [0, 0, 0])
      c :: decodeLossy fuel (bytes.drop width)

/-- Bytes as text; what is no UTF-8 becomes replacement characters. -/
def fromUtf8Lossy : Text := decodeLossy bytes.length bytes

end Rexux.Path
