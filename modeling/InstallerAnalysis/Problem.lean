import InstallerAnalysis.Action.Sequence
import InstallerAnalysis.Coercion.Fault
import InstallerAnalysis.Markup.Basic
import InstallerAnalysis.Table.Basic

/-!
# Problems

The causes for which analysis reports something. A problem has one wording, a severity and
possibly a second place that bears on it; at a location it makes one diagnostic.
-/

namespace InstallerAnalysis

/-- What is wrong with a text that should be an inline directory. -/
inductive InlineFault where
  | noPath
  | emptySegment
  | illegalParent
deriving DecidableEq

def InlineFault.label : InlineFault → String
  | .noPath => "empty directory path"
  | .emptySegment => "empty path segment"
  | .illegalParent => "parent is not a directory identifier"

inductive Problem where
  | value (path : String) (fault : ValueFault)
  | caution (path : String) (odd : ValueCaution)
  | unknownTable (table : String)
  | duplicateSymbol (table id : String) (first : Option Location)
  | emptyRegistryKey
  | illegalInlineDirectory (subject text : String) (fault : InlineFault)
  | illegalDirectoryName (subject text segment : String)
  | selfRelation (search : String)
  | duplicateAction (action : String) (sequence : Sequence) (first : Option Location)
  | unexpectedAttribute (element name : QName)
  | unexpectedElement (parent child : QName)
  | unhandledElement (parent element : QName)
  | unexpectedText (element : QName) (suggestion : Option String)
deriving DecidableEq

namespace Problem

def severity : Problem → Severity
  | .caution _ _ => .warning
  | _ => .error

def wording : Problem → Wording
  | .value path fault => fault.wording path
  | .caution path odd => odd.wording path
  | .unknownTable table =>
    ⟨.unknownTable, (SchemaFault.unknownTable table).message, "unknown table",
      some "register the table's definition before creating its symbols"⟩
  | .duplicateSymbol table id _ =>
    ⟨.duplicateSymbol, s!"the `{table}` symbol `{id}` is defined more than once",
      "duplicate definition", some "every identifier must be unique within its table"⟩
  | .emptyRegistryKey =>
    ⟨.emptyValue, "a registry value requires a non-empty key", "empty key", none⟩
  | .illegalInlineDirectory subject text fault =>
    ⟨.illegalInlineDirectory, s!"the {subject} `{text}` is not legal inline directory syntax",
      fault.label, some "use `Parent:\\Child\\Grandchild` or `Child\\Grandchild`"⟩
  | .illegalDirectoryName subject text segment =>
    ⟨.illegalLongName, s!"the {subject} `{text}` contains the illegal directory name `{segment}`",
      "illegal directory name", none⟩
  | .selfRelation search =>
    ⟨.selfRelation, s!"the search `{search}` cannot be ordered after itself",
      "self-referencing search",
      some "order the search after a different search, or remove the relation"⟩
  | .duplicateAction action sequence _ =>
    ⟨.duplicateAction,
      s!"the action `{action}` is scheduled more than once in `{sequence.text}`",
      "duplicate action", some "mark one of the actions overridable, or remove the duplicate"⟩
  | .unexpectedAttribute element name =>
    ⟨.unexpectedAttribute,
      s!"the `{element.text}` element contains an unexpected attribute `{name.text}`",
      "unexpected attribute", none⟩
  | .unexpectedElement parent child =>
    ⟨.unexpectedElement,
      s!"the `{parent.text}` element contains an unexpected child element `{child.text}`",
      "unexpected element", none⟩
  | .unhandledElement parent element =>
    ⟨.unhandledElement,
      s!"the `{parent.text}` element contains an extension element `{element.text}` that no " ++
        "extension handled",
      "unhandled extension element",
      some (match element.space with
        | some space => s!"register an extension for the namespace `{space}`"
        | none => "core elements are not handled by extensions")⟩
  | .unexpectedText element suggestion =>
    ⟨.unexpectedText, s!"the `{element.text}` element does not accept inner text",
      "unexpected text",
      suggestion.map fun name => s!"use the `{name}` attribute instead"⟩

/-- Another place that bears on the problem, where there is one. -/
def related : Problem → Option (Location × String)
  | .duplicateSymbol _ _ first => first.map (·, "first defined here")
  | .duplicateAction _ _ first => first.map (·, "first scheduled here")
  | _ => none

def labels (p : Problem) (loc : Location) : List Label :=
  ⟨loc, p.wording.label, true⟩ ::
    p.related.toList.map fun (place, note) => ⟨place, note, false⟩

/-- The diagnostic that reports a problem at a location. -/
def report (p : Problem) (loc : Location) : Diagnostic where
  severity := p.severity
  code := some p.wording.code
  message := p.wording.message
  labels := p.labels loc
  help := p.wording.help

end Problem

end InstallerAnalysis
