/-!
# Decimal numerals

A numeral is a possibly empty run of digits `0` to `9` whose value is read from the left; leading
zeros count for nothing. A count is a numeral with at least one digit, after at most one `+`.
-/

namespace DrawnModels

namespace Text

def digitValue? (c : Char) : Option Nat :=
  if '0' ≤ c ∧ c ≤ '9' then some (c.toNat - '0'.toNat) else none

/-- The value of `value` with the digits of a numeral written behind it. -/
def readDigits (value : Nat) : List Char → Option Nat
  | [] => some value
  | c :: rest =>
    match digitValue? c with
    | some d => readDigits (10 * value + d) rest
    | none => none

def readNumeral? : List Char → Option Nat
  | [] => none
  | c :: rest => readDigits 0 (c :: rest)

/-- Reads a numeral that may have a `+` in front. -/
def readCount? (s : String) : Option Nat :=
  match s.toList with
  | '+' :: rest => readNumeral? rest
  | cs => readNumeral? cs

end Text

end DrawnModels
