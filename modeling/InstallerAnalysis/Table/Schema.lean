import InstallerAnalysis.Table.Basic

/-!
# The built-in tables

Each namespace describes one table: a field for every column, and the table that has exactly these
columns, in this order.
-/

namespace InstallerAnalysis.Schema

namespace Directory

def parent : Field .string := ⟨"ParentDirectoryRef", 0⟩

def name : Field .string := ⟨"Name", 1⟩

def shortName : Field .string := ⟨"ShortName", 2⟩

def sourceName : Field .string := ⟨"SourceName", 3⟩

def sourceShortName : Field .string := ⟨"SourceShortName", 4⟩

/-- Installation directories. -/
def definition : Table :=
  ⟨"Directory",
    [parent.column, name.column, shortName.column, sourceName.column, sourceShortName.column]⟩

end Directory

namespace Registry

def root : Field .number := ⟨"Root", 0⟩

def key : Field .string := ⟨"Key", 1⟩

def name : Field .string := ⟨"Name", 2⟩

def value : Field .string := ⟨"Value", 3⟩

def valueType : Field .number := ⟨"ValueType", 4⟩

def valueAction : Field .number := ⟨"ValueAction", 5⟩

def component : Field .string := ⟨"ComponentRef", 6⟩

/-- Registry values written by components. -/
def definition : Table :=
  ⟨"Registry",
    [root.column, key.column, name.column, value.column, valueType.column, valueAction.column,
     component.column]⟩

end Registry

namespace SimpleReference

def table : Field .string := ⟨"Table", 0⟩

def primaryKeys : Field .string := ⟨"PrimaryKeys", 1⟩

/-- Dependencies on rows defined elsewhere. -/
def definition : Table :=
  ⟨"WixSimpleReference", [table.column, primaryKeys.column]⟩

end SimpleReference

namespace ComplexReference

def parent : Field .string := ⟨"Parent", 0⟩

def parentType : Field .number := ⟨"ParentType", 1⟩

def parentLanguage : Field .string := ⟨"ParentLanguage", 2⟩

def child : Field .string := ⟨"Child", 3⟩

def childType : Field .number := ⟨"ChildType", 4⟩

def isPrimary : Field .bool := ⟨"IsPrimary", 5⟩

/-- Parents and their children. -/
def definition : Table :=
  ⟨"WixComplexReference",
    [parent.column, parentType.column, parentLanguage.column, child.column, childType.column,
     isPrimary.column]⟩

end ComplexReference

namespace Group

def parent : Field .string := ⟨"ParentId", 0⟩

def parentType : Field .number := ⟨"ParentType", 1⟩

def child : Field .string := ⟨"ChildId", 2⟩

def childType : Field .number := ⟨"ChildType", 3⟩

/-- Members of groups. -/
def definition : Table :=
  ⟨"WixGroup", [parent.column, parentType.column, child.column, childType.column]⟩

end Group

namespace Search

def elementName : Field .string := ⟨"ElementName", 0⟩

def variableName : Field .string := ⟨"Variable", 1⟩

def condition : Field .string := ⟨"Condition", 2⟩

def bundleExtension : Field .string := ⟨"BundleExtensionRef", 3⟩

/-- Searches that run before an installation is planned. -/
def definition : Table :=
  ⟨"WixSearch", [elementName.column, variableName.column, condition.column, bundleExtension.column]⟩

end Search

namespace SearchRelation

def parent : Field .string := ⟨"ParentSearchRef", 0⟩

def attributes : Field .number := ⟨"Attributes", 1⟩

/-- Orderings between searches; the row is named after the later search. -/
def definition : Table :=
  ⟨"WixSearchRelation", [parent.column, attributes.column]⟩

end SearchRelation

namespace Action

def sequence : Field .number := ⟨"SequenceTable", 0⟩

def name : Field .string := ⟨"Action", 1⟩

def condition : Field .string := ⟨"Condition", 2⟩

def before : Field .string := ⟨"Before", 3⟩

def after : Field .string := ⟨"After", 4⟩

def overridable : Field .bool := ⟨"Overridable", 5⟩

/-- Actions scheduled in sequences. -/
def definition : Table :=
  ⟨"WixAction",
    [sequence.column, name.column, condition.column, before.column, after.column,
     overridable.column]⟩

end Action

namespace EnsureTable

def table : Field .string := ⟨"Table", 0⟩

/-- Tables that exist even when they are empty. -/
def definition : Table :=
  ⟨"WixEnsureTable", [table.column]⟩

end EnsureTable

namespace CustomAction

def actionType : Field .number := ⟨"Type", 0⟩

def source : Field .string := ⟨"Source", 1⟩

def target : Field .string := ⟨"Target", 2⟩

def definition : Table :=
  ⟨"CustomAction", [actionType.column, source.column, target.column]⟩

end CustomAction

namespace Component

def componentId : Field .string := ⟨"ComponentId", 0⟩

def directory : Field .string := ⟨"DirectoryRef", 1⟩

def keyPath : Field .string := ⟨"KeyPath", 2⟩

def condition : Field .string := ⟨"Condition", 3⟩

def definition : Table :=
  ⟨"Component", [componentId.column, directory.column, keyPath.column, condition.column]⟩

end Component

namespace Feature

def parent : Field .string := ⟨"ParentFeatureRef", 0⟩

def title : Field .string := ⟨"Title", 1⟩

def level : Field .number := ⟨"Level", 2⟩

def definition : Table :=
  ⟨"Feature", [parent.column, title.column, level.column]⟩

end Feature

namespace Property

def value : Field .string := ⟨"Value", 0⟩

def definition : Table :=
  ⟨"Property", [value.column]⟩

end Property

namespace BundleExtension

def payload : Field .string := ⟨"PayloadRef", 0⟩

def definition : Table :=
  ⟨"WixBundleExtension", [payload.column]⟩

end BundleExtension

/-- Every built-in table. -/
def builtin : List Table :=
  [Directory.definition, Registry.definition, SimpleReference.definition,
   ComplexReference.definition, Group.definition, Search.definition, SearchRelation.definition,
   Action.definition, EnsureTable.definition, CustomAction.definition, Component.definition,
   Feature.definition, Property.definition, BundleExtension.definition]

end InstallerAnalysis.Schema
