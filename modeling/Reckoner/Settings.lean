-- Settings: how long an input may be, how many digits a fraction keeps, how large
-- numbers may get, and which characters stand inside numerals. Settings that would
-- make expressions ambiguous are found before anything is evaluated under them.
import Reckoner.Expression
import Reckoner.Number.Fixed

namespace Reckoner

structure Separators where
  /-- Stands between the whole part and the fraction. -/
  point : Char
  /-- Would stand between groups of digits, and is never accepted there. -/
  grouping : Char
  deriving DecidableEq, Repr

namespace Separators

def standard : Separators := ⟨'.', ','⟩

/-- The character has a meaning of its own in an expression. -/
def clashes (c : Char) : Bool := c.isDigit || isBlank c || (Operator.ofSymbol? c).isSome

end Separators

structure Settings where
  maxLength : Nat := 100
  /-- The most digits in the fraction of an operand, and the digits kept in a result. -/
  fractionDigits : Nat := 4
  operandBound : Nat := 1000000
  /-- The largest size of a result, before it is rounded. -/
  resultBound : Nat := 1000000000
  separators : Separators := Separators.standard
  deriving DecidableEq, Repr

inductive SettingsFault
  | noLength
  | tooManyFractionDigits
  | noOperandBound
  | noResultBound
  | equalSeparators
  | clashingSeparator (separator : Char)
  deriving DecidableEq, Repr

def SettingsFault.message : SettingsFault → String
  | noLength => "Maximum input length must be positive"
  | tooManyFractionDigits => s!"At most {amountScale.val} fractional digits are supported"
  | noOperandBound => "Operand bound must be positive"
  | noResultBound => "Result bound must be positive"
  | equalSeparators => "Fractional and grouping separators must differ"
  | clashingSeparator c => s!"Separator {quoted c} clashes with expression syntax"

namespace Settings

/-- Looks for the first fault. -/
def check (s : Settings) : Except SettingsFault Unit :=
  if s.maxLength = 0 then
    .error .noLength
  else if amountScale.val < s.fractionDigits then
    .error .tooManyFractionDigits
  else if s.operandBound = 0 then
    .error .noOperandBound
  else if s.resultBound = 0 then
    .error .noResultBound
  else if s.separators.point = s.separators.grouping then
    .error .equalSeparators
  else if Separators.clashes s.separators.point then
    .error (.clashingSeparator s.separators.point)
  else if Separators.clashes s.separators.grouping then
    .error (.clashingSeparator s.separators.grouping)
  else
    .ok ()

def Valid (s : Settings) : Prop := s.check = .ok ()

theorem valid_iff {s : Settings} : s.Valid ↔
    0 < s.maxLength ∧ s.fractionDigits ≤ 4 ∧ 0 < s.operandBound ∧ 0 < s.resultBound ∧
      s.separators.point ≠ s.separators.grouping ∧
      Separators.clashes s.separators.point = false ∧
      Separators.clashes s.separators.grouping = false := by
  have h4 : (amountScale : Scale).val = 4 := rfl
  unfold Valid check
  rw [h4]
  repeat' split
  all_goals simp_all
  all_goals omega

theorem valid_standard : Valid {} := rfl

end Settings

end Reckoner
