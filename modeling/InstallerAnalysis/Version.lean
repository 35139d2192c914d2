import InstallerAnalysis.Text.Numeral

/-!
# Versions

A version is one to four numbers, each at most 65535, joined by periods. It is read from the front
of a text: a part takes all the digits that stand there, and a period is only taken together with
the part after it. What is left of the text afterwards has to be nothing.
-/

namespace InstallerAnalysis.Version

def maxPart : Nat := 65535

def maxParts : Nat := 4

/-- Takes one more digit, unless the number then no longer fits 32 bits. -/
def takeDigit? (n : Nat) (digit : Char) : Option Nat :=
  let next := 10 * n + Text.digitValue digit
  if next < UInt32.size then some next else none

/-- The number of a run of digits, if it fits 32 bits. -/
def word? (run : List Char) : Option Nat :=
  run.foldlM takeDigit? 0

/-- The digits at the front of a text, all there are and at least one, and the rest of the text. -/
def digits? (cs : List Char) : Option (List Char × List Char) :=
  if cs.takeWhile Text.isAsciiDigit = [] then none
  else some (cs.takeWhile Text.isAsciiDigit, cs.dropWhile Text.isAsciiDigit)

/-- The part at the front of a text, and the rest of the text. -/
def part? (cs : List Char) : Option (Nat × List Char) := do
  let (run, rest) ← digits? cs
  let n ← word? run
  if n ≤ maxPart then some (n, rest) else none

/-- At most so many further parts, each after a period, and the rest of the text. A period that no
part follows belongs to the rest. -/
def furtherParts : Nat → List Char → List Nat × List Char
  | limit + 1, '.' :: cs =>
    match part? cs with
    | some (n, rest) =>
      let (parts, last) := furtherParts limit rest
      (n :: parts, last)
    | none => ([], '.' :: cs)
  | _, cs => ([], cs)

/-- The parts at the front of a text, and the rest of the text. -/
def parts? (cs : List Char) : Option (List Nat × List Char) := do
  let (n, rest) ← part? cs
  let (parts, last) := furtherParts (maxParts - 1) rest
  return (n :: parts, last)

/-- The parts of a text that is a version as a whole. -/
def parse? (s : String) : Option (List Nat) :=
  match parts? s.toList with
  | some (parts, []) => some parts
  | _ => none

end InstallerAnalysis.Version
