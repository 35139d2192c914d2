import InstallerAnalysis.Guid.Basic
import InstallerAnalysis.Text.Numeral

/-!
# Numbers and dates in TOML

Whether a text has the form of a number or a date. The settings have no use for either, so a number
is never evaluated, and some forms have no value: a mark of the base needs no digits after it, and
of an integer with underscores only the characters around the underscores matter.
-/

namespace InstallerAnalysis.Toml

/-- Digits with single underscores between them. -/
def isDigitRun (isDigit : Char → Bool) (cs : List Char) : Bool :=
  (cs.splitOn '_').all fun run => run ≠ [] && run.all isDigit

def isSign (c : Char) : Bool :=
  c = '+' || c = '-'

def dropSign : List Char → List Char
  | c :: rest => if isSign c then rest else c :: rest
  | [] => []

/-- A decimal number without needless zeros in front. After a sign an underscore may stand in front,
and zeros behind it. -/
def isDecimal (signed : Bool) : List Char → Bool
  | '_' :: rest => signed && isDigitRun Text.isAsciiDigit rest
  | cs => isDigitRun Text.isAsciiDigit cs && (cs.head? ≠ some '0' || cs.length = 1)

def isRadixDigits (isDigit : Char → Bool) (cs : List Char) : Bool :=
  cs = [] || isDigitRun isDigit cs

def isRadixInteger : List Char → Bool
  | '0' :: 'x' :: rest => isRadixDigits (fun c => (Guid.hexValue? c).isSome) rest
  | '0' :: 'o' :: rest => isRadixDigits (fun c => '0' ≤ c && c ≤ '7') rest
  | '0' :: 'b' :: rest => isRadixDigits (fun c => c = '0' || c = '1') rest
  | _ => false

/-- A decimal number and, after a period, its fraction. -/
def isFractional (signed : Bool) (cs : List Char) : Bool :=
  match cs.splitOn '.' with
  | [whole] => isDecimal signed whole
  | [whole, fraction] => isDecimal signed whole && isDigitRun Text.isAsciiDigit fraction
  | _ => false

def isExponentMark (c : Char) : Bool :=
  c = 'e' || c = 'E'

def isFloat (signed : Bool) (cs : List Char) : Bool :=
  match cs.splitOnP isExponentMark with
  | [mantissa] => isFractional signed mantissa
  | [mantissa, exponent] =>
    isFractional signed mantissa && isDigitRun Text.isAsciiDigit (dropSign exponent)
  | _ => false

/-- What stands before the first underscore: the digits of a decimal number that is not zero, or
after a sign nothing. -/
def opensGroups (signed : Bool) (cs : List Char) : Bool :=
  if cs = [] then signed else cs.all Text.isAsciiDigit && cs.head? ≠ some '0'

/-- An integer with underscores, each of which stands between digits. Nothing else is asked of the
groups after the first, except that they have no mark of a fraction or an exponent and no space. -/
def isGrouped (signed : Bool) (cs : List Char) : Bool :=
  !cs.any (fun c => c = '.' || c = ' ' || isExponentMark c) &&
    match cs.splitOn '_' with
    | first :: group :: groups =>
      opensGroups signed first &&
        (group :: groups).all (·.head?.any Text.isAsciiDigit) &&
        (group :: groups).dropLast.all (·.getLast?.any Text.isAsciiDigit)
    | _ => false

/-- A number after its sign, if it is signed. -/
def isMagnitude (signed : Bool) (cs : List Char) : Bool :=
  isFloat signed cs || isGrouped signed cs || cs = "inf".toList || cs = "nan".toList

def isNumber (cs : List Char) : Bool :=
  isRadixInteger cs || isMagnitude (cs.head?.any isSign) (dropSign cs)

/-! ## Dates and times -/

/-- A number of exactly `count` digits. -/
def fixedNat? (count : Nat) (cs : List Char) : Option Nat :=
  if cs.length = count then Text.readNat cs else none

def isLeapYear (year : Nat) : Bool :=
  (year % 4 = 0 && year % 100 ≠ 0) || year % 400 = 0

def daysIn (year month : Nat) : Nat :=
  if month = 2 then if isLeapYear year then 29 else 28
  else if [4, 6, 9, 11].contains month then 30
  else 31

def isDate (cs : List Char) : Bool :=
  match cs.splitOn '-' with
  | [year, month, day] =>
    match fixedNat? 4 year, fixedNat? 2 month, fixedNat? 2 day with
    | some y, some m, some d => 1 ≤ m && m ≤ 12 && 1 ≤ d && d ≤ daysIn y m
    | _, _, _ => false
  | _ => false

def isBelow (limit : Nat) (cs : List Char) : Bool :=
  (fixedNat? 2 cs).any (· < limit)

/-- Seconds, with a fraction or without. -/
def isSeconds (cs : List Char) : Bool :=
  match cs.splitOn '.' with
  | [whole] => isBelow 61 whole
  | [whole, fraction] => isBelow 61 whole && (Text.readNat fraction).isSome
  | _ => false

def isTime (cs : List Char) : Bool :=
  match cs.splitOn ':' with
  | [hour, minute] => isBelow 24 hour && isBelow 60 minute
  | [hour, minute, second] => isBelow 24 hour && isBelow 60 minute && isSeconds second
  | _ => false

def isOffset : List Char → Bool
  | [] => true
  | ['Z'] => true
  | ['z'] => true
  | c :: rest =>
    isSign c &&
      match rest.splitOn ':' with
      | [hour, minute] => isBelow 24 hour && isBelow 60 minute
      | _ => false

/-- A time, with an offset or without. -/
def isOffsetTime (cs : List Char) : Bool :=
  let isTimeChar (c : Char) : Bool := Text.isAsciiDigit c || c = ':' || c = '.'
  isTime (cs.takeWhile isTimeChar) && isOffset (cs.dropWhile isTimeChar)

def isDateTime (cs : List Char) : Bool :=
  match cs.drop 10 with
  | [] => isDate cs
  | c :: time => isDate (cs.take 10) && (c = 'T' || c = 't' || c = ' ') && isOffsetTime time

def isScalar (cs : List Char) : Bool :=
  isNumber cs || isDateTime cs || isTime cs

end InstallerAnalysis.Toml
