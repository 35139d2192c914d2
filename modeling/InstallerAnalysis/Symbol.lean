import InstallerAnalysis.Identifier.Basic
import InstallerAnalysis.Location
import InstallerAnalysis.Table.Basic

/-!
# Symbols

A symbol is one row of a table: a cell for every column, which may be unset, and possibly an
identifier and a location. Code that knows the table reads and writes cells through its fields;
code that knows only column names goes through the checked `assign`.
-/

namespace InstallerAnalysis

structure Symbol where
  table : Table
  id : Option Identifier
  location : Option Location
  cells : List (Option FieldValue)
deriving DecidableEq

namespace Symbol

variable {kind : FieldKind}

/-- A row in which no cell is set. -/
def blank (table : Table) (location : Option Location) (id : Option Identifier) : Symbol :=
  ⟨table, id, location, List.replicate table.columns.length none⟩

/-- The text that rows of a table are told apart by. -/
def key? (s : Symbol) : Option (String × String) :=
  s.id.map fun i => (s.table.name, i.id)

def cell? (s : Symbol) (index : Nat) : Option FieldValue :=
  s.cells[index]?.join

/-- The value of a field, if it is set and of the field's kind. -/
def get? (s : Symbol) (f : Field kind) : Option kind.Carrier :=
  (s.cell? f.index).bind (FieldValue.get? kind)

/-- Sets a field, or clears it. A table without such a column is left alone. -/
def put? (s : Symbol) (f : Field kind) (value : Option kind.Carrier) : Symbol :=
  { s with cells := s.cells.set f.index (value.map FieldValue.ofCarrier) }

def put (s : Symbol) (f : Field kind) (value : kind.Carrier) : Symbol :=
  s.put? f (some value)

/-- The value of the first column of a name. -/
def getNamed? (s : Symbol) (name : String) : Option FieldValue :=
  (s.table.columnIndex? name).bind s.cell?

/-- Sets the first column of a name to a value of the right kind. -/
def assign (s : Symbol) (name : String) (value : FieldValue) : Except SchemaFault Symbol :=
  match s.table.columnIndex? name with
  | none => .error (.unknownField s.table.name name)
  | some index =>
    match s.table.columns[index]? with
    | none => .error (.unknownField s.table.name name)
    | some column =>
      if column.kind = value.kind then
        .ok { s with cells := s.cells.set index (some value) }
      else
        .error (.kindMismatch s.table.name name column.kind value.kind)

/-- Makes several assignments one after the other. Those that fail change nothing. -/
def assignAll (s : Symbol) : List (String × FieldValue) → Symbol × List (Except SchemaFault Unit)
  | [] => (s, [])
  | (name, value) :: rest =>
    match s.assign name value with
    | .ok s' =>
      let (last, results) := s'.assignAll rest
      (last, .ok () :: results)
    | .error fault =>
      let (last, results) := s.assignAll rest
      (last, .error fault :: results)

end Symbol

end InstallerAnalysis
