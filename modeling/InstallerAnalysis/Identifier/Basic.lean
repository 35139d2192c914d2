import InstallerAnalysis.Text.Numeral

/-!
# Identifiers

An identifier names a row; its access says from how far away it may be referred to. The grammar is
a letter or underscore followed by letters, digits, underscores and periods.
-/

namespace InstallerAnalysis

/-- How far an identifier is visible. -/
inductive Access where
  | package
  | library
  | fragment
deriving DecidableEq

namespace Access

/-- The keyword that is written for an access. -/
def text : Access → String
  | .package => "global"
  | .library => "public"
  | .fragment => "private"

/-- Every keyword that authors may write, with the access it stands for. -/
def keywords : List (String × Access) :=
  [("global", .package), ("package", .package),
   ("public", .library), ("internal", .library), ("library", .library),
   ("private", .fragment), ("protected", .fragment), ("file", .fragment),
   ("fragment", .fragment), ("section", .fragment)]

def ofKeyword? (keyword : String) : Option Access :=
  keywords.lookup keyword

end Access

structure Identifier where
  access : Access
  id : String
deriving DecidableEq

namespace Identifier

/-- An identifier that only its own fragment sees; the access of whatever states none. -/
def ofId (id : String) : Identifier :=
  ⟨.fragment, id⟩

/-- What stands in for an identifier that could not be read. No author can write it, since it is
not of the grammar. -/
def placeholder : Identifier :=
  ofId "!InvalidIdentifier"

def isPlaceholder (i : Identifier) : Bool :=
  i.id = placeholder.id

def isStartChar (c : Char) : Bool :=
  Text.isAsciiLetter c || c = '_'

def isChar (c : Char) : Bool :=
  Text.isAsciiLetter c || Text.isAsciiDigit c || c = '_' || c = '.'

def isLegalText : List Char → Bool
  | c :: cs => isStartChar c && cs.all isChar
  | [] => false

/-- Whether a text is of the identifier grammar. -/
def isLegal (s : String) : Bool :=
  isLegalText s.toList

end Identifier

end InstallerAnalysis
