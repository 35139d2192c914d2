import InstallerAnalysis.Action.Sequence
import InstallerAnalysis.Symbol
import InstallerAnalysis.Table.Schema

/-!
# Sections

A section holds the rows that one source gives rise to, in the order in which they were added, and
an index from table and identifier to the row that holds them. `add` refuses a row whose table and
identifier are held already. `push` leaves the index alone: it is for rows that may share the
identifier of another row.
-/

namespace InstallerAnalysis

structure Section where
  id : String
  location : Option Location := none
  symbols : List Symbol := []
  /-- Where the row that holds a table and an identifier stands. -/
  keys : List ((String × String) × Nat) := []
deriving DecidableEq

namespace Section

/-- A row whose table and identifier are taken. -/
structure Duplicate where
  table : String
  id : String
  first : Option Location
deriving DecidableEq

def Duplicate.message (d : Duplicate) : String :=
  s!"duplicate symbol `{d.id}` in table `{d.table}`"

def push (c : Section) (s : Symbol) : Section :=
  { c with symbols := c.symbols ++ [s] }

/-- Has the row that is added next hold a table and an identifier. -/
def hold (c : Section) (key : String × String) : Section :=
  { c with keys := c.keys ++ [(key, c.symbols.length)] }

def add (c : Section) (s : Symbol) : Except Duplicate Section :=
  match s.key? with
  | none => .ok (c.push s)
  | some key =>
    match c.keys.lookup key with
    | some index => .error ⟨key.1, key.2, c.symbols[index]?.bind (·.location)⟩
    | none => .ok ((c.hold key).push s)

/-- The rows of a table. -/
def rowsOf (c : Section) (table : String) : List Symbol :=
  c.symbols.filter (·.table.name = table)

/-- The row that holds the identifier, or else the first row that has it. -/
def find? (c : Section) (table id : String) : Option Symbol :=
  match c.keys.lookup (table, id) with
  | some index => c.symbols[index]?
  | none => c.symbols.find? (·.key? = some (table, id))

def requiresTable (c : Section) (table : String) : Bool :=
  (c.rowsOf Schema.EnsureTable.definition.name).any
    (·.get? Schema.EnsureTable.table = some table)

/-- The actions scheduled in a sequence. -/
def scheduledIn (c : Section) (sequence : Sequence) : List Symbol :=
  (c.rowsOf Schema.Action.definition.name).filter
    (·.get? Schema.Action.sequence = some sequence.code)

end Section

/-- The sections that were accepted. -/
structure Intermediate where
  id : String
  sections : List Section := []
deriving DecidableEq

end InstallerAnalysis
