/-!
# Scalars

The written forms of numbers, truth values and times (`isScalar`). No setting
takes such a value, but a document may hold one, so it matters which texts are
well formed and which are not:

* an integer has a sign or not, no needless zero in front, underscores only
  between digits, and fits into 64 bits with a sign; in base 16, 8 and 2 it has
  no sign;
* a float has a fraction, an exponent or both, and is not so large that it
  becomes infinite; a negative one may be;
* a day exists in the calendar; a time goes to second 60.

This is a part of what stands in for a TOML library (see `Openness.Document.Reader`).
-/

namespace Openness.Document

/-! ## Digits -/

/-- Whether a text is made of digits, with underscores between digits only. -/
def isDigits (digit : Char → Bool) (cs : List Char) : Bool :=
  go false cs
where
  /-- The flag says whether a digit stands in front. -/
  go : Bool → List Char → Bool
    | after, [] => after
    | after, c :: cs =>
      if c = '_' then after && !cs.isEmpty && go false cs else digit c && go true cs

/-- The value of a digit in a base up to 16. -/
def digitValue (c : Char) : Nat :=
  if c.isDigit then c.toNat - '0'.toNat
  else if 'a' ≤ c && c ≤ 'f' then c.toNat - 'a'.toNat + 10
  else c.toNat - 'A'.toNat + 10

/-- Whether a character is a digit of a base up to 16. -/
def isDigitOf (base : Nat) (c : Char) : Bool :=
  (c.isDigit || ('a' ≤ c && c ≤ 'f') || ('A' ≤ c && c ≤ 'F')) && digitValue c < base

/-- The number that digits stand for; underscores do not count. -/
def valueOf (base : Nat) (cs : List Char) : Nat :=
  (cs.filter (· != '_')).foldl (fun n c => n * base + digitValue c) 0

/-- Whether a text is a decimal number without a needless zero in front. -/
def isDecimal (cs : List Char) : Bool :=
  isDigits (·.isDigit) cs && (cs.head? ≠ some '0' || cs.length = 1)

/-- Takes a sign off: whether it is a minus, and the rest. -/
def splitSign : List Char → Bool × List Char
  | '-' :: cs => (true, cs)
  | '+' :: cs => (false, cs)
  | cs => (false, cs)

/-! ## Numbers -/

/-- The least number that does not fit into 64 bits with a sign. -/
def integerLimit : Nat := Nat.pow 2 63

/-- Whether a text is an integer that fits into 64 bits. -/
def isInteger (cs : List Char) : Bool :=
  match cs with
  | '0' :: 'x' :: ds => inBase 16 ds
  | '0' :: 'o' :: ds => inBase 8 ds
  | '0' :: 'b' :: ds => inBase 2 ds
  | _ =>
    let (negative, ds) := splitSign cs
    isDecimal ds && valueOf 10 ds < integerLimit + (if negative then 1 else 0)
where
  /-- Whether digits of a base stand for an integer that fits. -/
  inBase (base : Nat) (ds : List Char) : Bool :=
    isDigits (isDigitOf base) ds && valueOf base ds < integerLimit

/-- The least number that is rounded to infinity as a float of 64 bits. -/
def floatLimit : Nat := Nat.pow 2 1024 - Nat.pow 2 970

/-- Whether `digits` times ten to the `exponent` becomes infinite as a float. The
    number of decimal places decides, unless it is close. -/
def isInfinite (digits : Nat) (exponent : Int) : Bool :=
  let places : Int := (Nat.toDigits 10 digits).length + exponent
  if digits = 0 || places < 300 then false
  else if 320 < places then true
  else if 0 ≤ exponent then floatLimit ≤ digits * Nat.pow 10 exponent.toNat
  else floatLimit * Nat.pow 10 (-exponent).toNat ≤ digits

/-- Whether a character stands between the digits of a float and its exponent. -/
def isExponentMark (c : Char) : Bool := c = 'e' || c = 'E'

/-- Whether a text without a sign is a float with a fraction, an exponent or
    both. If it has to be finite, it does not become infinite. -/
def isDecimalFloat (finite : Bool) (cs : List Char) : Bool :=
  let mantissa := cs.takeWhile (!isExponentMark ·)
  let whole := mantissa.takeWhile (· != '.')
  let fraction := (mantissa.dropWhile (· != '.')).drop 1
  let hasFraction := mantissa.any (· = '.')
  let hasExponent := cs.any isExponentMark
  let (negative, exponent) := splitSign ((cs.dropWhile (!isExponentMark ·)).drop 1)
  let shift : Int := valueOf 10 exponent
  let places : Int := (fraction.filter (· != '_')).length
  (hasFraction || hasExponent) && isDecimal whole
    && (!hasFraction || isDigits (·.isDigit) fraction)
    && (!hasExponent || isDigits (·.isDigit) exponent)
    && !(finite && isInfinite (valueOf 10 (whole ++ fraction))
      ((if negative then -shift else shift) - places))

/-- Whether a text is a float; a positive one in digits does not become
    infinite. -/
def isFloat (cs : List Char) : Bool :=
  let (negative, cs) := splitSign cs
  cs = "inf".toList || cs = "nan".toList || isDecimalFloat (!negative) cs

/-! ## Times -/

/-- Whether two digits stand for a number within bounds. -/
def isTwoDigits (low high : Nat) (a b : Char) : Bool :=
  a.isDigit && b.isDigit && low ≤ valueOf 10 [a, b] && valueOf 10 [a, b] ≤ high

/-- The number of days of a month. -/
def daysOf (year month : Nat) : Nat :=
  if month = 2 then
    if year % 4 = 0 && (year % 100 ≠ 0 || year % 400 = 0) then 29 else 28
  else if month = 4 || month = 6 || month = 9 || month = 11 then 30
  else 31

/-- Whether a text is a day of the calendar. -/
def isDate : List Char → Bool
  | [y₁, y₂, y₃, y₄, '-', m₁, m₂, '-', d₁, d₂] =>
    [y₁, y₂, y₃, y₄].all (·.isDigit) && isTwoDigits 1 12 m₁ m₂
      && isTwoDigits 1 (daysOf (valueOf 10 [y₁, y₂, y₃, y₄]) (valueOf 10 [m₁, m₂])) d₁ d₂
  | _ => false

/-- Whether a text is a time of day. -/
def isTime : List Char → Bool
  | h₁ :: h₂ :: ':' :: m₁ :: m₂ :: ':' :: s₁ :: s₂ :: rest =>
    isTwoDigits 0 23 h₁ h₂ && isTwoDigits 0 59 m₁ m₂ && isTwoDigits 0 60 s₁ s₂
      && match rest with
        | [] => true
        | '.' :: d :: ds => (d :: ds).all (·.isDigit)
        | _ => false
  | _ => false

/-- Whether a text is a distance from universal time. -/
def isOffset : List Char → Bool
  | [c] => c = 'Z' || c = 'z'
  | [sign, h₁, h₂, ':', m₁, m₂] =>
    (sign = '+' || sign = '-') && isTwoDigits 0 23 h₁ h₂ && isTwoDigits 0 59 m₁ m₂
  | _ => false

/-- Whether a text is a time of day, perhaps with a distance from universal
    time. -/
def isTimeWithOffset (cs : List Char) : Bool :=
  let isTimeChar (c : Char) : Bool := c.isDigit || c = ':' || c = '.'
  let offset := cs.dropWhile isTimeChar
  isTime (cs.takeWhile isTimeChar) && (offset.isEmpty || isOffset offset)

/-- Whether a text is a day, a time of day, or both with a `T` between them. -/
def isDateTime (cs : List Char) : Bool :=
  isTime cs || isDate cs || match cs.drop 10 with
    | t :: rest => (t = 'T' || t = 't') && isDate (cs.take 10) && isTimeWithOffset rest
    | [] => false

/-- Whether a text is a number, a truth value or a time. -/
def isScalar (cs : List Char) : Bool :=
  isInteger cs || isFloat cs || isDateTime cs || cs = "true".toList || cs = "false".toList

/-- Whether a character can be part of a scalar. -/
def isScalarChar (c : Char) : Bool := c.isAlphanum || c ∈ ['+', '-', '_', '.', ':']

end Openness.Document
