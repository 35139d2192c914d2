import InstallerAnalysis.Location

/-!
# Diagnostics

A diagnostic is one report about a source: how severe it is, a code that says what kind of problem
it is, a message, labelled places and possibly advice. Reports are kept in the order in which they
are made; a list of them is a failure if one is an error.
-/

namespace InstallerAnalysis

inductive Severity where
  | error
  | warning
deriving DecidableEq

def Severity.text : Severity → String
  | .error => "error"
  | .warning => "warning"

/-- The kinds of problem. -/
inductive Code where
  | emptyValue
  | illegalIdentifier
  | illegalInteger
  | integerOutOfRange
  | reservedInteger
  | illegalGuid
  | illegalLongName
  | escapingPath
  | illegalRegistryRoot
  | illegalVersion
  | illegalChoice
  | illegalBundleVariable
  | unexpectedText
  | illegalInlineDirectory
  | duplicateSymbol
  | duplicateAction
  | selfRelation
  | unexpectedAttribute
  | unexpectedElement
  | unhandledElement
  | unknownTable
  | invalidField
  | longIdentifier
  | ambiguousShortName
deriving DecidableEq

namespace Code

def all : List Code :=
  [.emptyValue, .illegalIdentifier, .illegalInteger, .integerOutOfRange, .reservedInteger,
   .illegalGuid, .illegalLongName, .escapingPath, .illegalRegistryRoot, .illegalVersion,
   .illegalChoice, .illegalBundleVariable, .unexpectedText, .illegalInlineDirectory,
   .duplicateSymbol, .duplicateAction, .selfRelation, .unexpectedAttribute, .unexpectedElement,
   .unhandledElement, .unknownTable, .invalidField, .longIdentifier, .ambiguousShortName]

def text : Code → String
  | .emptyValue => "E001"
  | .illegalIdentifier => "E002"
  | .illegalInteger => "E003"
  | .integerOutOfRange => "E004"
  | .reservedInteger => "E005"
  | .illegalGuid => "E006"
  | .illegalLongName => "E007"
  | .escapingPath => "E008"
  | .illegalRegistryRoot => "E009"
  | .illegalVersion => "E010"
  | .illegalChoice => "E011"
  | .illegalBundleVariable => "E012"
  | .unexpectedText => "E013"
  | .illegalInlineDirectory => "E014"
  | .duplicateSymbol => "E100"
  | .duplicateAction => "E101"
  | .selfRelation => "E102"
  | .unexpectedAttribute => "E200"
  | .unexpectedElement => "E201"
  | .unhandledElement => "E202"
  | .unknownTable => "E300"
  | .invalidField => "E301"
  | .longIdentifier => "W001"
  | .ambiguousShortName => "W002"

def ofText? (s : String) : Option Code :=
  all.find? (·.text = s)

def description : Code → String
  | .emptyValue => "empty attribute value"
  | .illegalIdentifier => "illegal identifier"
  | .illegalInteger => "illegal integer value"
  | .integerOutOfRange => "integer out of range"
  | .reservedInteger => "reserved integer value"
  | .illegalGuid => "illegal GUID"
  | .illegalLongName => "illegal long filename"
  | .escapingPath => "relative path escapes its root"
  | .illegalRegistryRoot => "illegal registry root"
  | .illegalVersion => "illegal version"
  | .illegalChoice => "illegal yes/no value"
  | .illegalBundleVariable => "illegal bundle variable name"
  | .unexpectedText => "inner text not allowed"
  | .illegalInlineDirectory => "illegal inline directory syntax"
  | .duplicateSymbol => "duplicate symbol"
  | .duplicateAction => "duplicate action"
  | .selfRelation => "search relation refers to itself"
  | .unexpectedAttribute => "unexpected attribute"
  | .unexpectedElement => "unexpected element"
  | .unhandledElement => "unhandled extension element"
  | .unknownTable => "unknown symbol definition"
  | .invalidField => "invalid field"
  | .longIdentifier => "identifier too long"
  | .ambiguousShortName => "possibly ambiguous short filename"

end Code

/-- A note on a place. A primary label marks where the problem is, another one gives context. -/
structure Label where
  location : Location
  message : String
  primary : Bool := true
deriving DecidableEq

structure Diagnostic where
  severity : Severity
  code : Option Code := none
  message : String
  labels : List Label := []
  help : Option String := none
deriving DecidableEq

namespace Diagnostic

def isError (d : Diagnostic) : Bool :=
  d.severity = .error

def isWarning (d : Diagnostic) : Bool :=
  d.severity = .warning

/-- The place of the first primary label. -/
def location? (d : Diagnostic) : Option Location :=
  (d.labels.find? (·.primary)).map (·.location)

/-- The same report as an error. -/
def promote (d : Diagnostic) : Diagnostic :=
  { d with severity := .error }

/-- Severity, code and message on one line. -/
def text (d : Diagnostic) : String :=
  let code :=
    match d.code with
    | some c => "[" ++ c.text ++ "]"
    | none => ""
  d.severity.text ++ code ++ ": " ++ d.message

/-! ## Lists of reports -/

def errors (ds : List Diagnostic) : List Diagnostic :=
  ds.filter isError

def anyError (ds : List Diagnostic) : Bool :=
  ds.any isError

/-- The first error, and how many more there are. -/
def summary (ds : List Diagnostic) : String :=
  match errors ds with
  | [] => ""
  | [d] => d.text
  | d :: more => d.text ++ " (+" ++ toString more.length ++ " more)"

end Diagnostic

end InstallerAnalysis
