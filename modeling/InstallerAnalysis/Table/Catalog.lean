import InstallerAnalysis.Table.Schema

/-!
# Catalogs

The tables that are known by name, in the order in which they were registered. No two have the
same name.
-/

namespace InstallerAnalysis

structure Catalog where
  tables : List Table
  distinct : (tables.map (·.name)).Nodup
deriving DecidableEq

/-- A table by its name, or the table itself. -/
inductive TableRef where
  | named (name : String)
  | given (table : Table)
deriving DecidableEq

def TableRef.name : TableRef → String
  | .named name => name
  | .given table => table.name

namespace Catalog

def empty : Catalog :=
  ⟨[], by simp⟩

def builtin : Catalog :=
  ⟨Schema.builtin, by decide⟩

def names (c : Catalog) : List String :=
  c.tables.map (·.name)

def get? (c : Catalog) (name : String) : Option Table :=
  c.tables.find? (·.name = name)

/-- Adds a table at the end, unless its name is taken. -/
def insert (c : Catalog) (t : Table) : Except SchemaFault Catalog :=
  if h : t.name ∈ c.names then .error (.duplicateTable t.name)
  else
    .ok ⟨c.tables ++ [t], by
      have h' : ∀ a ∈ c.tables, a.name ≠ t.name := by simpa [names] using h
      simpa [List.nodup_append, c.distinct] using h'⟩

def insertAll (c : Catalog) (ts : List Table) : Except SchemaFault Catalog :=
  ts.foldlM insert c

def lookup (c : Catalog) (name : String) : Except SchemaFault Table :=
  match c.get? name with
  | some t => .ok t
  | none => .error (.unknownTable name)

/-- The table that a reference means. A table that is given need not be registered. -/
def lookupRef (c : Catalog) : TableRef → Except SchemaFault Table
  | .named name => c.lookup name
  | .given table => .ok table

end Catalog

end InstallerAnalysis
