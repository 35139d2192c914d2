import InstallerAnalysis.Collector
import InstallerAnalysis.Platform
import InstallerAnalysis.Problem
import InstallerAnalysis.Section
import InstallerAnalysis.Table.Catalog

/-!
# Source units

The state of the analysis of one source: the tables it may use, the reports made so far, the
section that is being built, the inline directories that exist already and the platform. Builders
are computations in `Analysis`: they change the unit and never fail.
-/

namespace InstallerAnalysis

structure SourceUnit where
  catalog : Catalog
  reports : Collector := {}
  content : Section
  /-- The identifier of each directory that inline paths have named, by its full path. -/
  directories : List (String × String) := []
  platform : Platform := .x86
deriving DecidableEq

abbrev Analysis := StateM SourceUnit

namespace SourceUnit

def diagnostics (u : SourceUnit) : List Diagnostic :=
  u.reports.diagnostics

def anyError (u : SourceUnit) : Bool :=
  u.reports.hasErrors

/-- The unit after further reports, and nothing else. -/
def withReports (u : SourceUnit) (ds : List Diagnostic) : SourceUnit :=
  { u with reports := u.reports.emitAll ds }

@[simp]
theorem diagnostics_withReports (u : SourceUnit) (ds : List Diagnostic) :
    (u.withReports ds).diagnostics = u.diagnostics ++ ds :=
  u.reports.diagnostics_emitAll ds

@[simp]
theorem catalog_withReports (u : SourceUnit) (ds : List Diagnostic) :
    (u.withReports ds).catalog = u.catalog := rfl

@[simp]
theorem content_withReports (u : SourceUnit) (ds : List Diagnostic) :
    (u.withReports ds).content = u.content := rfl

@[simp]
theorem directories_withReports (u : SourceUnit) (ds : List Diagnostic) :
    (u.withReports ds).directories = u.directories := rfl

@[simp]
theorem platform_withReports (u : SourceUnit) (ds : List Diagnostic) :
    (u.withReports ds).platform = u.platform := rfl

theorem withReports_append (u : SourceUnit) (ds ds' : List Diagnostic) :
    u.withReports (ds ++ ds') = (u.withReports ds).withReports ds' := by
  rw [withReports, Collector.emitAll, List.foldl_append]
  rfl

def record (d : Diagnostic) : Analysis Unit :=
  modify fun u => { u with reports := u.reports.emit d }

/-- Reports a problem at a location. -/
def report (p : Problem) (loc : Location) : Analysis Unit :=
  record (p.report loc)

end SourceUnit

end InstallerAnalysis
