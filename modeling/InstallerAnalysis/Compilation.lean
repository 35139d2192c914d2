import InstallerAnalysis.Config
import InstallerAnalysis.SourceUnit.Basic

/-!
# Compilations

A compilation takes in finished source units one after the other. The section of a unit that made
no errors is accepted. The reports of the others are kept, and a compilation that has any of those
fails when it is finished.
-/

namespace InstallerAnalysis

structure Compilation where
  config : Config
  catalog : Catalog
  accepted : Intermediate
  warnings : List Diagnostic := []
  failures : List Diagnostic := []
deriving DecidableEq

/-- The sections of a compilation in which nothing failed. -/
structure Compiled where
  intermediate : Intermediate
  warnings : List Diagnostic
deriving DecidableEq

namespace Compilation

def start (id : String) (config : Config) : Except SchemaFault Compilation := do
  return { config := config, catalog := ← Catalog.builtin.insertAll config.tables
           accepted := { id := id } }

/-- What is said of a configuration whose tables cannot be registered. -/
def startMessage (fault : SchemaFault) : String :=
  "Configuration error: " ++ fault.message

/-- A source unit in which nothing has happened yet. -/
def newUnit (c : Compilation) (id : String) (location : Option Location) : SourceUnit where
  catalog := c.catalog
  content := { id := id, location := location }
  platform := c.config.platform

/-- The reports of a finished unit: a failure if an error was made, or any report at all where
warnings are errors. -/
def settle (config : Config) (reports : Collector) :
    Except (List Diagnostic) (List Diagnostic) :=
  match reports.finish with
  | .ok warnings =>
    if config.warningsAsErrors && !warnings.isEmpty then .error warnings else .ok warnings
  | .error ds => .error ds

/-- The reports of a rejected unit as they are kept. -/
def keptFailures (config : Config) (ds : List Diagnostic) : List Diagnostic :=
  if config.warningsAsErrors then ds.map (·.promote)
  else if config.suppressWarnings then ds.filter (!·.isWarning)
  else ds

def keptWarnings (config : Config) (ds : List Diagnostic) : List Diagnostic :=
  if config.suppressWarnings then [] else ds

/-- Takes in a finished unit, and says whether its section was accepted. -/
def receive (c : Compilation) (u : SourceUnit) : Compilation × Bool :=
  match settle c.config u.reports with
  | .ok warnings =>
    ({ c with
        accepted := { c.accepted with sections := c.accepted.sections ++ [u.content] }
        warnings := c.warnings ++ keptWarnings c.config warnings }, true)
  | .error ds => ({ c with failures := c.failures ++ keptFailures c.config ds }, false)

def conclude (c : Compilation) : Except (List Diagnostic) Compiled :=
  if c.failures.isEmpty then .ok ⟨c.accepted, c.warnings⟩ else .error c.failures

end Compilation

end InstallerAnalysis
