import InstallerAnalysis.Filename.ShortName
import InstallerAnalysis.SourceUnit.Rows

/-!
# Directories

A directory has a name and a source name, each possibly with a short form. A short form that is
missing is synthesized unless the name itself is one. A directory without an identifier gets one
that is derived from its parent and its names.
-/

namespace InstallerAnalysis

namespace Directory

structure Names where
  name : Option String := none
  shortName : Option String := none
  sourceName : Option String := none
  shortSourceName : Option String := none
deriving DecidableEq

/-- The short form of a name that is not short itself. -/
def shortFor? (parent : Option String) (name : String) : Option String :=
  if Filename.isShort false name || Variable.isLocalization name then none
  else some (Filename.synthesizeShort name false false ["Directory", parent.getD ""])

namespace Names

/-- The names with the missing short forms synthesized. -/
def complete (parent : Option String) (names : Names) : Names :=
  { names with
    shortName := names.shortName <|> names.name.bind (shortFor? parent)
    shortSourceName := names.shortSourceName <|> names.sourceName.bind (shortFor? parent) }

/-- What tells directories without an identifier apart. -/
def parts (parent : Option String) (names : Names) : List String :=
  [parent, names.name, names.shortName, names.sourceName, names.shortSourceName].map (·.getD "")

def identifier (parent : Option String) (names : Names) : Identifier :=
  Identifier.ofParts "d" (names.parts parent)

def fill (parent : Option String) (names : Names) (s : Symbol) : Symbol :=
  s.put? Schema.Directory.parent parent
    |>.put? Schema.Directory.name names.name
    |>.put? Schema.Directory.shortName names.shortName
    |>.put? Schema.Directory.sourceName names.sourceName
    |>.put? Schema.Directory.sourceShortName names.shortSourceName

end Names

end Directory

namespace SourceUnit

/-- Adds a directory and gives its identifier, also when it could not be added, so that what is
inside it still has a parent. -/
def createDirectory (loc : Location) (id : Option Identifier) (parent : Option String)
    (names : Directory.Names) : Analysis Identifier := do
  let names := names.complete parent
  let id := id.getD (names.identifier parent)
  let _ ← createRow loc Schema.Directory.definition (some id) (names.fill parent)
  return id

end SourceUnit

end InstallerAnalysis
