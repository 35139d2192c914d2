/-!
# Tables

A table has a name and an ordered list of typed columns. A `Field` addresses a column by position
and knows the type of its values, so that a number cannot be stored in a column of texts.
-/

namespace InstallerAnalysis

inductive FieldKind where
  | string
  | number
  | bool
deriving DecidableEq

namespace FieldKind

def all : List FieldKind :=
  [.string, .number, .bool]

def text : FieldKind → String
  | .string => "string"
  | .number => "number"
  | .bool => "bool"

def ofText? (s : String) : Option FieldKind :=
  all.find? (·.text = s)

/-- The type of the values of a kind. -/
abbrev Carrier : FieldKind → Type
  | .string => String
  | .number => Int
  | .bool => Bool

end FieldKind

inductive FieldValue where
  | string (s : String)
  | number (n : Int)
  | bool (b : Bool)
deriving DecidableEq

namespace FieldValue

def kind : FieldValue → FieldKind
  | .string _ => .string
  | .number _ => .number
  | .bool _ => .bool

def ofCarrier : {kind : FieldKind} → kind.Carrier → FieldValue
  | .string, s => .string s
  | .number, n => .number n
  | .bool, b => .bool b

/-- The value, if it is of the given kind. -/
def get? : (kind : FieldKind) → FieldValue → Option kind.Carrier
  | .string, .string s => some s
  | .number, .number n => some n
  | .bool, .bool b => some b
  | _, _ => none

end FieldValue

structure Column where
  name : String
  kind : FieldKind
deriving DecidableEq

structure Table where
  name : String
  columns : List Column
deriving DecidableEq

/-- The position of the first column of a name. -/
def Table.columnIndex? (t : Table) (name : String) : Option Nat :=
  t.columns.findIdx? (·.name = name)

structure Field (kind : FieldKind) where
  name : String
  index : Nat

def Field.column {kind : FieldKind} (f : Field kind) : Column :=
  ⟨f.name, kind⟩

/-- How tables and their columns can be used against their definitions. -/
inductive SchemaFault where
  | unknownTable (table : String)
  | duplicateTable (table : String)
  | unknownField (table field : String)
  | kindMismatch (table field : String) (expected actual : FieldKind)
deriving DecidableEq

def SchemaFault.message : SchemaFault → String
  | .unknownTable table => s!"symbol definition `{table}` is not registered"
  | .duplicateTable table => s!"symbol definition `{table}` is already registered"
  | .unknownField table field => s!"table `{table}` has no field named `{field}`"
  | .kindMismatch table field expected actual =>
    s!"field `{table}.{field}` expects a {expected.text} value, got {actual.text}"

end InstallerAnalysis
