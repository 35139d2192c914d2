import InstallerAnalysis.SourceUnit.Basic

/-!
# Adding rows

A row is created in a table, and reported instead if the table is unknown or the identifier taken.
-/

namespace InstallerAnalysis.SourceUnit

variable {α : Type}

/-- Adds the row that `fill` makes of a blank one, and gives what `fill` gives with it. Nothing is
added and nothing given if the table is unknown or the identifier taken. -/
def createWith (loc : Location) (table : TableRef) (id : Option Identifier)
    (fill : Symbol → Symbol × α) : Analysis (Option α) := do
  match (← get).catalog.lookupRef table with
  | .error _ =>
    report (.unknownTable table.name) loc
    return none
  | .ok definition =>
    let (symbol, result) := fill (Symbol.blank definition (some loc) id)
    match (← get).content.add symbol with
    | .error taken =>
      report (.duplicateSymbol taken.table taken.id taken.first) loc
      return none
    | .ok content =>
      modify fun u => { u with content := content }
      return some result

/-- Adds a row of a known table, and says whether it was added. -/
def createRow (loc : Location) (table : Table) (id : Option Identifier)
    (fill : Symbol → Symbol) : Analysis Bool := do
  return (← createWith loc (.given table) id fun s => (fill s, ())).isSome

/-- Adds a row of a known table that does not hold its identifier. -/
def pushRow (loc : Location) (table : Table) (id : Option Identifier)
    (fill : Symbol → Symbol) : Analysis Unit :=
  modify fun u =>
    { u with content := u.content.push (fill (Symbol.blank table (some loc) id)) }

/-- Has a table exist even when no row is in it. Asking a second time changes nothing. -/
def requireTable (loc : Location) (table : TableRef) : Analysis Unit := do
  unless (← get).content.requiresTable table.name do
    let _ ← createRow loc Schema.EnsureTable.definition (some (Identifier.ofId table.name))
      (·.put Schema.EnsureTable.table table.name)

end InstallerAnalysis.SourceUnit
