import InstallerAnalysis.Coercion.Values
import InstallerAnalysis.Directory.Basic
import InstallerAnalysis.SourceUnit.References

/-!
# Inline directories

A chain of directories can be written as a path such as `Parent:\Child\Grandchild`. The first
segment names the parent if it ends with a colon, or if no parent is known from elsewhere. Every
directory of the chain is created once: the unit remembers them by their full paths.
-/

namespace InstallerAnalysis

namespace Directory

/-- A path that was read: the directory it starts from, whether that was named by the path itself,
and the names below it. -/
structure InlinePath where
  root : String
  named : Bool
  segments : List String
deriving DecidableEq

namespace InlinePath

/-- The text before a colon at the end. -/
def explicitParent? (segment : List Char) : Option (List Char) :=
  if segment.getLast? = some ':' then some segment.dropLast else none

/-- Splits the directory that a path starts from off its segments. -/
def splitRoot (parent : Option String) (first : List Char) (rest : List (List Char)) :
    InlinePath :=
  match explicitParent? first, parent with
  | some root, _ => ⟨String.ofList root, true, rest.map String.ofList⟩
  | none, some root => ⟨root, false, (first :: rest).map String.ofList⟩
  | none, none => ⟨String.ofList first, true, rest.map String.ofList⟩

def parse (parent : Option String) (text : String) : Except InlineFault InlinePath :=
  match Text.dropEndWhile Filename.isSeparator text.toList with
  | [] => .error .noPath
  | trimmed =>
    match Filename.segments trimmed with
    | [] => .error .noPath
    | first :: rest =>
      if (first :: rest).contains [] then .error .emptySegment
      else
        let path := splitRoot parent first rest
        if Identifier.isLegal path.root then .ok path else .error .illegalParent

end InlinePath

/-- The full path of a directory that paths start from. -/
def rootKey (root : String) : String :=
  root ++ ":"

/-- The full path of a directory inside the one at `key`. -/
def childKey (key segment : String) : String :=
  key ++ "\\" ++ segment

end Directory

namespace SourceUnit

/-- The identifier of the directory at a full path. -/
def directoryAt? (u : SourceUnit) (key : String) : Option String :=
  u.directories.lookup key

/-- Remembers the directory at a full path. -/
def rememberDirectory (key id : String) : Analysis Unit :=
  modify fun u => { u with directories := u.directories ++ [(key, id)] }

/-- Refers to the directory that paths start from, the first time it is named. -/
def enterRoot (loc : Location) (path : Directory.InlinePath) : Analysis Unit := do
  if path.named && ((← get).directoryAt? (Directory.rootKey path.root)).isNone then
    reference loc Schema.Directory.definition.name [path.root]
    rememberDirectory (Directory.rootKey path.root) path.root

/-- Goes down from the directory `current` at the full path `key`, and creates what is missing. An
illegal name ends the way, unless its directory exists already. -/
def descend (loc : Location) (illegal : String → Problem) :
    (key current : String) → List String → Analysis (Option String)
  | _, current, [] => return some current
  | key, current, segment :: rest => do
    let next := Directory.childKey key segment
    match (← get).directoryAt? next with
    | some id => descend loc illegal next id rest
    | none =>
      if Filename.isLong false false segment then
        let id ← createDirectory loc none (some current) { name := some segment }
        rememberDirectory next id.id
        descend loc illegal next id.id rest
      else
        report (illegal segment) loc
        return none

/-- The text of an inline directory: the one given, or else the value of the attribute. -/
def inlineText (loc : Location) (a : Option Attribute) (given : String) :
    Analysis (Option String) := do
  if given.isEmpty then
    match a with
    | some a => return (← readAttribute (Coercion.text .refuseBlank) loc a).valid?
    | none => return some ""
  else
    return some given

/-- The identifier of the last directory of an inline path, after creating what is missing. -/
def resolveInline (loc : Location) (a : Option Attribute) (parent : Option String)
    (given : String) : Analysis (Option String) := do
  match ← inlineText loc a given with
  | none => return none
  | some text =>
    let subject := (a.map (·.path)).getD "inline directory"
    match Directory.InlinePath.parse parent text with
    | .error fault =>
      report (.illegalInlineDirectory subject text fault) loc
      return none
    | .ok path =>
      enterRoot loc path
      descend loc (.illegalDirectoryName subject text) (Directory.rootKey path.root) path.root
        path.segments

end SourceUnit

end InstallerAnalysis
