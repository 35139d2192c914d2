import InstallerAnalysis.Diagnostic

/-!
# Collecting reports

The reports of a source are collected in the order in which they are made, together with a mark that
is set by the first error and never taken back. The mark decides whether the source has failed.
-/

namespace InstallerAnalysis

structure Collector where
  diagnostics : List Diagnostic := []
  hasErrors : Bool := false
  /-- The mark is set exactly if an error was collected. -/
  hasErrors_eq : hasErrors = Diagnostic.anyError diagnostics := by rfl
deriving DecidableEq

namespace Collector

def emit (c : Collector) (d : Diagnostic) : Collector where
  diagnostics := c.diagnostics ++ [d]
  hasErrors := c.hasErrors || d.isError
  hasErrors_eq := by simp [Diagnostic.anyError, c.hasErrors_eq]

def emitAll (c : Collector) (ds : List Diagnostic) : Collector :=
  ds.foldl emit c

/-- The reports of a finished source: a failure if the mark was set. -/
def finish (c : Collector) : Except (List Diagnostic) (List Diagnostic) :=
  if c.hasErrors then .error c.diagnostics else .ok c.diagnostics

/-- The reports say all there is to say. -/
@[ext]
theorem ext {c c' : Collector} (h : c.diagnostics = c'.diagnostics) : c = c' := by
  obtain ⟨ds, mark, hmark⟩ := c
  obtain ⟨ds', mark', hmark'⟩ := c'
  cases h
  cases hmark
  cases hmark'
  rfl

@[simp]
theorem diagnostics_emitAll (c : Collector) (ds : List Diagnostic) :
    (c.emitAll ds).diagnostics = c.diagnostics ++ ds := by
  induction ds generalizing c with
  | nil => exact (List.append_nil _).symm
  | cons d ds ih => exact (ih (c.emit d)).trans (List.append_assoc _ _ _)

end Collector

/-- What comes of reports that are made one after the other. -/
def Diagnostic.conclude (ds : List Diagnostic) : Except (List Diagnostic) (List Diagnostic) :=
  (({} : Collector).emitAll ds).finish

end InstallerAnalysis
