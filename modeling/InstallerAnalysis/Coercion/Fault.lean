import InstallerAnalysis.Diagnostic

/-!
# Faults of attribute values

Why the text of an attribute is refused, and what about an accepted text is odd. Each has one
wording, given the path by which the attribute is named.
-/

namespace InstallerAnalysis

/-- What a report says, apart from where it is. -/
structure Wording where
  code : Code
  message : String
  label : String
  help : Option String := none

/-- Why a text is not the name of a bundle variable that may be set. -/
inductive BundleVariableFault where
  | grammar
  | wellKnown
  | reserved
deriving DecidableEq

inductive ValueFault where
  | empty
  | unknownAccess (keyword : String)
  | illegalIdentifier (id : String)
  | notInteger (text : String)
  | reservedInteger (n : Int)
  | outOfRange (n minimum maximum : Int)
  | illegalGuid (text : String)
  | escapingPath (path : String)
  | illegalLongName (name : String)
  | illegalRegistryRoot (text : String) (machineOrUser : Bool)
  | illegalVersion (text : String)
  | illegalChoice (text : String) (withDefault : Bool)
  | illegalBundleVariable (name : String) (why : BundleVariableFault)
deriving DecidableEq

inductive ValueCaution where
  | longIdentifier (id : String)
  | generatedShortName (text : String)
deriving DecidableEq

/-- Longer identifiers are kept, with a warning. -/
def Identifier.maxLength : Nat := 72

namespace BundleVariableFault

def help : BundleVariableFault → String
  | .grammar => "bundle variable names follow the identifier grammar"
  | .wellKnown => "the name is defined by the bundle engine; choose another name"
  | .reserved => "names starting with `Wix` are reserved"

end BundleVariableFault

namespace ValueFault

def wording (path : String) : ValueFault → Wording
  | .empty => ⟨.emptyValue, s!"the `{path}` attribute cannot be empty", "empty value", none⟩
  | .unknownAccess keyword =>
    ⟨.illegalIdentifier, s!"the `{path}` attribute has an unknown access modifier `{keyword}`",
      "illegal identifier", some "use `global`, `public` or `private` before the identifier"⟩
  | .illegalIdentifier id =>
    ⟨.illegalIdentifier, s!"the `{path}` attribute has an illegal identifier `{id}`",
      "illegal identifier",
      some ("identifiers start with a letter or underscore and contain only letters, digits, " ++
        "underscores and periods")⟩
  | .notInteger text =>
    ⟨.illegalInteger, s!"the `{path}` attribute's value `{text}` is not a legal integer",
      "not an integer", none⟩
  | .reservedInteger n =>
    ⟨.reservedInteger, s!"the `{path}` attribute's value `{n}` is reserved", "reserved value", none⟩
  | .outOfRange n minimum maximum =>
    ⟨.integerOutOfRange,
      s!"the `{path}` attribute's value `{n}` is not in the range {minimum} to {maximum}",
      "out of range", none⟩
  | .illegalGuid text =>
    ⟨.illegalGuid, s!"the `{path}` attribute's value `{text}` is not a legal GUID", "illegal GUID",
      if text = "*" then some "`*` is only allowed where the GUID can be generated" else none⟩
  | .escapingPath text =>
    ⟨.escapingPath, s!"the `{path}` attribute's path `{text}` climbs above its root",
      "path escapes its root", none⟩
  | .illegalLongName name =>
    ⟨.illegalLongName, s!"the `{path}` attribute's value `{name}` is not a legal long filename",
      "illegal long filename", none⟩
  | .illegalRegistryRoot text machineOrUser =>
    ⟨.illegalRegistryRoot, s!"the `{path}` attribute's value `{text}` is not a registry root",
      "illegal registry root",
      some (if machineOrUser then "use `HKMU`, `HKCR`, `HKCU`, `HKLM` or `HKU`"
        else "use `HKCR`, `HKCU`, `HKLM` or `HKU`")⟩
  | .illegalVersion text =>
    ⟨.illegalVersion, s!"the `{path}` attribute's value `{text}` is not a legal version",
      "illegal version",
      some ("use up to four dot-separated integers no larger than 65535, or a binder variable " ++
        "such as `!(bind.fileVersion.FileId)`")⟩
  | .illegalChoice text withDefault =>
    ⟨.illegalChoice, s!"the `{path}` attribute's value `{text}` is not a legal choice",
      "illegal value",
      some (if withDefault then "use `yes`, `no` or `default`" else "use `yes` or `no`")⟩
  | .illegalBundleVariable name why =>
    ⟨.illegalBundleVariable,
      s!"the `{path}` attribute's value `{name}` is not a legal bundle variable name",
      "illegal bundle variable name", some why.help⟩

end ValueFault

namespace ValueCaution

def wording (path : String) : ValueCaution → Wording
  | .longIdentifier id =>
    ⟨.longIdentifier,
      s!"the `{id}` identifier is {id.length} characters long; identifiers longer than " ++
        s!"{Identifier.maxLength} characters may not be supported",
      "long identifier", none⟩
  | .generatedShortName text =>
    ⟨.ambiguousShortName,
      s!"the `{path}` attribute's value `{text}` looks like a generated short name and may be " ++
        "ambiguous",
      "possibly ambiguous", none⟩

end ValueCaution

end InstallerAnalysis
