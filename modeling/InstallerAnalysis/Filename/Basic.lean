import InstallerAnalysis.Text.Blank
import InstallerAnalysis.Text.Numeral

/-!
# File names

A long name has at most 259 characters, none of them a control character or one that paths and
wildcards reserve, and is not made of periods only. A short name has the 8.3 form: a stem of one
to eight characters and, after a period, an extension of one to three. Where wildcards are allowed
`*` and `?` are no longer reserved.
-/

namespace InstallerAnalysis.Filename

def maxLength : Nat := 259

def maxStem : Nat := 8

def maxExtension : Nat := 3

def isSeparator (c : Char) : Bool :=
  c = '\\' || c = '/'

def isWildcard (c : Char) : Bool :=
  c = '*' || c = '?'

/-- The characters that no long name holds, wildcards among them. -/
def reserved : List Char :=
  ['\\', '?', '|', '>', '<', ':', '/', '*', '"']

/-- The further characters that no short name holds. -/
def shortReserved : List Char :=
  ['+', ',', ';', '=', '[', ']', ' ']

/-- Not reserved, or a wildcard where those are allowed. -/
def isAllowed (wildcards : Bool) (c : Char) : Bool :=
  !reserved.contains c || (wildcards && isWildcard c)

/-- A single name, of any length. -/
def isLongName (wildcards : Bool) (cs : List Char) : Bool :=
  !cs.all (· = '.') && cs.all fun c => !Text.isControl c && isAllowed wildcards c

/-- The pieces of a path between its separators. -/
def segments (cs : List Char) : List (List Char) :=
  cs.splitOnP isSeparator

/-- Whether a path segment names something: `.` and `..` do, and so does a long name. -/
def isLegalSegment (wildcards : Bool) (segment : List Char) : Bool :=
  segment = ['.'] || segment = ['.', '.'] || isLongName wildcards segment

/-- A path of legal segments, not made of separators only. -/
def isRelativePath (wildcards : Bool) (cs : List Char) : Bool :=
  ((segments cs).filter (· ≠ [])).all (isLegalSegment wildcards) && cs.any (!isSeparator ·)

def isLong (wildcards relative : Bool) (s : String) : Bool :=
  let cs := s.toList
  cs ≠ [] && cs.length ≤ maxLength &&
    if relative then isRelativePath wildcards cs else isLongName wildcards cs

def isGraphic (c : Char) : Bool :=
  0x21 ≤ c.toNat && c.toNat ≤ 0x7E

def isShortChar (wildcards : Bool) (c : Char) : Bool :=
  isGraphic c && !shortReserved.contains c && isAllowed wildcards c

/-- The stem before the first period, and the extension after it if there is one. -/
def splitExtension (cs : List Char) : List Char × Option (List Char) :=
  match cs.dropWhile (· ≠ '.') with
  | _ :: extension => (cs.takeWhile (· ≠ '.'), some extension)
  | [] => (cs, none)

def isShortText (wildcards : Bool) (cs : List Char) : Bool :=
  let (stem, extension) := splitExtension cs
  stem ≠ [] && stem.length ≤ maxStem && stem.all (isShortChar wildcards) &&
    extension.all fun e =>
      e ≠ [] && e.length ≤ maxExtension && !e.contains '.' && e.all (isShortChar wildcards)

def isShort (wildcards : Bool) (s : String) : Bool :=
  isShortText wildcards s.toList

/-- A tilde directly before a digit, as in the short names that file systems generate. -/
def hasAlias : List Char → Bool
  | c :: d :: rest => (c = '~' && Text.isAsciiDigit d) || hasAlias (d :: rest)
  | _ => false

def looksGenerated (s : String) : Bool :=
  hasAlias s.toList

end InstallerAnalysis.Filename
