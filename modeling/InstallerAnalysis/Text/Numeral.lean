/-!
# Decimal numerals

`natValue` reads a list of ASCII digits positionally, and `readInt` reads an optional single sign
followed by at least one digit. Leading zeros are allowed and there is no limit on the length:
whether the number fits a machine width is asked of the number, not of its text.
-/

namespace InstallerAnalysis.Text

def isAsciiDigit (c : Char) : Bool :=
  '0' ≤ c && c ≤ '9'

def isAsciiLetter (c : Char) : Bool :=
  ('a' ≤ c && c ≤ 'z') || ('A' ≤ c && c ≤ 'Z')

def digitValue (c : Char) : Nat :=
  c.toNat - '0'.toNat

/-- The number that a list of digits denotes, most significant first. -/
def natValue (ds : List Char) : Nat :=
  ds.foldl (fun n d => 10 * n + digitValue d) 0

/-- A non-empty run of digits, and nothing else. -/
def readNat (cs : List Char) : Option Nat :=
  if cs ≠ [] && cs.all isAsciiDigit then some (natValue cs) else none

/-- One optional sign before a non-empty run of digits. -/
def readInt : List Char → Option Int
  | '-' :: cs => (readNat cs).map fun n : Nat => -(n : Int)
  | '+' :: cs => (readNat cs).map fun n : Nat => (n : Int)
  | cs => (readNat cs).map fun n : Nat => (n : Int)

/-- The least signed number of `bits` binary digits. -/
def minSigned (bits : Nat) : Int :=
  -(1 <<< (bits - 1) : Nat)

/-- Whether a number has a signed form of `bits` binary digits. -/
def fitsSigned (bits : Nat) (n : Int) : Bool :=
  minSigned bits ≤ n && n < -minSigned bits

end InstallerAnalysis.Text
