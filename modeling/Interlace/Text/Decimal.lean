import Interlace.Text.Basic

/-!
# Decimal numbers

Reading unsigned decimal numbers below a bound. A leading plus sign is allowed.
-/

namespace Interlace.Text

/-- Why a text is not an unsigned number below the bound. -/
inductive DecimalError where
  | empty
  | notDigit
  | tooLarge
  deriving DecidableEq, Repr

/-- The wording of a reading failure. -/
def DecimalError.message : DecimalError → Text
  | empty => "cannot parse integer from empty string"
  | notDigit => "invalid digit found in string"
  | tooLarge => "number too large to fit in target type"

/-- Reads digits into `value`; the first fault from the left decides the error. -/
def readDigits (bound : Nat) : (value : Nat) → Text → Except DecimalError Nat
  | value, [] => .ok value
  | value, b :: t =>
    if isDigit b then
      let next := value * 10 + (b.toNat - 0x30)
      if next < bound then readDigits bound next t
      else .error .tooLarge
    else .error .notDigit

/-- The number a text spells, when it is below `bound`. -/
def decimal (bound : Nat) : Text → Except DecimalError Nat
  | [] => .error .empty
  | [0x2B] => .error .notDigit
  | 0x2B :: t => readDigits bound 0 t
  | t => readDigits bound 0 t

/-- The number a text spells, if it spells one below `bound`. -/
def decimal? (bound : Nat) (t : Text) : Option Nat :=
  (decimal bound t).toOption

/-- The bound of numbers that fit 32 bits. -/
def bound32 : Nat := 0x100000000

/-- The bound of numbers that fit 64 bits. -/
def bound64 : Nat := 0x10000000000000000

end Interlace.Text
