/-!
# Blank characters and control characters

`isBlank` is the White_Space class: the twenty-five characters that separate words and that
trimming removes. `isControl` is the class of control characters, which no file name may hold.
Trimming and folding into words are stated on character lists, and the functions on `String`
are those read through `String.toList`.
-/

namespace InstallerAnalysis.Text

/-- The White_Space characters. -/
def isBlank (c : Char) : Bool :=
  let n := c.toNat
  (0x09 ≤ n && n ≤ 0x0D) || n == 0x20 || n == 0x85 || n == 0xA0 || n == 0x1680 ||
    (0x2000 ≤ n && n ≤ 0x200A) || n == 0x2028 || n == 0x2029 || n == 0x202F || n == 0x205F ||
    n == 0x3000

/-- The control characters: the two blocks below the printable ASCII and Latin-1 characters, and
the delete character. -/
def isControl (c : Char) : Bool :=
  c.toNat < 0x20 || (0x7F ≤ c.toNat && c.toNat ≤ 0x9F)

/-- Drops the longest run at the end whose characters all satisfy `p`. -/
def dropEndWhile (p : Char → Bool) (cs : List Char) : List Char :=
  (cs.reverse.dropWhile p).reverse

/-- Drops the blanks at both ends. -/
def strip (cs : List Char) : List Char :=
  dropEndWhile isBlank (cs.dropWhile isBlank)

/-- The maximal runs without a blank, in order. -/
def wordRuns (cs : List Char) : List (List Char) :=
  (cs.splitOnP isBlank).filter (· ≠ [])

def trim (s : String) : String :=
  String.ofList (strip s.toList)

/-- Every character is blank; the empty text is. -/
def allBlank (s : String) : Bool :=
  s.toList.all isBlank

/-- The words of a text, separated by single spaces. -/
def foldBlanks (s : String) : String :=
  String.ofList (List.intercalate [' '] (wordRuns s.toList))

end InstallerAnalysis.Text
