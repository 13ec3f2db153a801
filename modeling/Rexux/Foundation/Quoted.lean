import Rexux.Foundation.Text

/-!
# Quoted strings

Strings between quotation marks, with escapes for quotation marks, backslashes and
control characters.  A string is read one character at a time; what was quoted is read
back whatever follows it (`readString_quote`), and a quoted string stays on one line.
-/

namespace Foundation

def lowerHexDigit (n : ℕ) : Char := Char.ofNat (if n < 10 then n + 48 else n + 87)

def escapeLetter (c : Char) : Option Char :=
  if c = '"' then some '"'
  else if c = '\\' then some '\\'
  else if c.toNat = 8 then some 'b'
  else if c = '\t' then some 't'
  else if c = '\n' then some 'n'
  else if c.toNat = 12 then some 'f'
  else if c = '\r' then some 'r'
  else none

/-- A character as it is written between quotes. -/
def escapeChar (c : Char) : Text :=
  match escapeLetter c with
  | some letter => ['\\', letter]
  | none =>
    if c.toNat < 32 then
      ['\\', 'u', '0', '0', lowerHexDigit (c.toNat / 16), lowerHexDigit (c.toNat % 16)]
    else [c]

/-- A text as a string literal. -/
def quote (text : Text) : Text := '"' :: (text.flatMap escapeChar ++ ['"'])

def lowerHexValue (c : Char) : Option ℕ :=
  if 48 ≤ c.toNat && c.toNat ≤ 57 then some (c.toNat - 48)
  else if 97 ≤ c.toNat && c.toNat ≤ 102 then some (c.toNat - 87)
  else none

def unescapeLetter (c : Char) : Option Char :=
  if c = '"' then some '"'
  else if c = '\\' then some '\\'
  else if c = 'b' then some (Char.ofNat 8)
  else if c = 't' then some '\t'
  else if c = 'n' then some '\n'
  else if c = 'f' then some (Char.ofNat 12)
  else if c = 'r' then some '\r'
  else none

/-- Where in a character the reader is; `hex` has read some digits of four. -/
inductive QuoteState
  | plain
  | escape
  | hex (left value : ℕ)
  deriving DecidableEq, Repr

def readQuoted (state : QuoteState) : Text → Option (Text × Text)
  | [] => none
  | c :: rest =>
    match state with
    | .plain =>
      if c = '"' then some ([], rest)
      else if c = '\\' then readQuoted .escape rest
      else (readQuoted .plain rest).map fun read => (c :: read.1, read.2)
    | .escape =>
      if c = 'u' then readQuoted (.hex 3 0) rest
      else
        (unescapeLetter c).bind fun unescaped =>
          (readQuoted .plain rest).map fun read => (unescaped :: read.1, read.2)
    | .hex 0 value =>
      (lowerHexValue c).bind fun digit =>
        (readQuoted .plain rest).map fun read => (Char.ofNat (value * 16 + digit) :: read.1, read.2)
    | .hex (left + 1) value =>
      (lowerHexValue c).bind fun digit => readQuoted (.hex left (value * 16 + digit)) rest

/-- A string literal at the front of a text, and what follows it. -/
def readString (text : Text) : Option (Text × Text) :=
  match text with
  | '"' :: rest => readQuoted .plain rest
  | _ => none

theorem lowerHexValue_lowerHexDigit : ∀ n < 16, lowerHexValue (lowerHexDigit n) = some n := by
  decide

theorem escapeLetter_spec {c letter : Char} (h : escapeLetter c = some letter) :
    letter ≠ 'u' ∧ unescapeLetter letter = some c := by
  have hcode : ∀ n, c.toNat = n → Char.ofNat n = c := by
    rintro n rfl
    exact Char.ofNat_toNat c
  unfold escapeLetter at h
  split_ifs at h with hquote hback hb ht hn hf hr
  all_goals
    obtain rfl := Option.some.inj h
    refine ⟨by decide, ?_⟩
  · rw [hquote]
    rfl
  · rw [hback]
    rfl
  · rw [← hcode 8 hb]
    rfl
  · rw [ht]
    rfl
  · rw [hn]
    rfl
  · rw [← hcode 12 hf]
    rfl
  · rw [hr]
    rfl

/-- An escaped character is read back. -/
theorem readQuoted_escapeChar (c : Char) (rest : Text) :
    readQuoted .plain (escapeChar c ++ rest) =
      (readQuoted .plain rest).map fun read => (c :: read.1, read.2) := by
  unfold escapeChar
  cases hletter : escapeLetter c with
  | some letter =>
    obtain ⟨hu, hunescape⟩ := escapeLetter_spec hletter
    change readQuoted .escape (letter :: rest) = _
    rw [readQuoted, if_neg hu, hunescape, Option.bind_some]
  | none =>
    dsimp only
    split
    next hcontrol =>
      -- Two zeros and the two digits of the code.
      have hhigh := lowerHexValue_lowerHexDigit (c.toNat / 16) (by omega)
      have hlow := lowerHexValue_lowerHexDigit (c.toNat % 16) (by omega)
      change readQuoted (.hex 1 0) (lowerHexDigit _ :: lowerHexDigit _ :: rest) = _
      rw [readQuoted, hhigh, Option.bind_some, readQuoted, hlow, Option.bind_some]
      have hvalue : (0 * 16 + c.toNat / 16) * 16 + c.toNat % 16 = c.toNat := by omega
      rw [hvalue, Char.ofNat_toNat]
    · have hquote : c ≠ '"' := by
        rintro rfl
        cases hletter
      have hback : c ≠ '\\' := by
        rintro rfl
        cases hletter
      change readQuoted .plain (c :: rest) = _
      rw [readQuoted, if_neg hquote, if_neg hback]

theorem readQuoted_quoted (text rest : Text) :
    readQuoted .plain (text.flatMap escapeChar ++ ('"' :: rest)) = some (text, rest) := by
  induction text with
  | nil => rfl
  | cons c text ih =>
    rw [List.flatMap_cons, List.append_assoc, readQuoted_escapeChar, ih]
    rfl

theorem readString_quote (text rest : Text) :
    readString (quote text ++ rest) = some (text, rest) := by
  have happend : quote text ++ rest = '"' :: (text.flatMap escapeChar ++ ('"' :: rest)) := by
    simp [quote]
  rw [happend, readString, readQuoted_quoted]

theorem lf_not_mem_lowerHexDigit : ∀ n < 16, lowerHexDigit n ≠ '\n' := by
  decide

theorem lf_not_mem_escapeChar (c : Char) : '\n' ∉ escapeChar c := by
  unfold escapeChar
  cases hletter : escapeLetter c with
  | some letter =>
    obtain ⟨-, hunescape⟩ := escapeLetter_spec hletter
    have hlf : letter ≠ '\n' := by
      rintro rfl
      cases hunescape
    simp [hlf.symm]
  | none =>
    dsimp only
    split
    next hcontrol =>
      have hhigh := lf_not_mem_lowerHexDigit (c.toNat / 16) (by omega)
      have hlow := lf_not_mem_lowerHexDigit (c.toNat % 16) (by omega)
      simp [hhigh.symm, hlow.symm]
    · have hlf : c ≠ '\n' := by
        rintro rfl
        cases hletter
      simp [hlf.symm]

theorem lf_not_mem_quote (text : Text) : '\n' ∉ quote text := by
  have hescaped : '\n' ∉ text.flatMap escapeChar := by
    simp [lf_not_mem_escapeChar]
  simp [quote, hescaped]

end Foundation
