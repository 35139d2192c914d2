import InstallerAnalysis.Extension.Dispatch
import InstallerAnalysis.Proofs.Operations
import InstallerAnalysis.SourceUnit.InnerText

/-!
# What a call leaves alone

A call builds something, reads an attribute, or refuses text, an attribute or an element. Whatever
it is, it adds to the end of the rows and of the reports, and all that it adds stands at the
location it was made for (`Appends`). So along a run nothing that was written is lost, and a unit
with errors keeps them.
-/

namespace InstallerAnalysis

namespace Diagnostic

/-- A report at a location, with a code that tells whether it is a warning. -/
structure FiledAt (loc : Location) (d : Diagnostic) : Prop where
  location : d.location? = some loc
  code : ∃ code, d.code = some code ∧ (d.isWarning ↔ code.text = "W001" ∨ code.text = "W002")

theorem anyError_mono {ds ds' : List Diagnostic} (h : ds <+: ds') (he : anyError ds) :
    anyError ds' := by
  obtain ⟨d, hd, herror⟩ := List.any_eq_true.1 he
  exact List.any_eq_true.2 ⟨d, h.subset hd, herror⟩

end Diagnostic

theorem Problem.severity_eq_warning_iff (p : Problem) : p.severity = .warning
    ↔ p.wording.code.text = "W001" ∨ p.wording.code.text = "W002" := by
  cases p with
  | value path fault => cases fault <;> simp [severity, wording, ValueFault.wording, Code.text]
  | caution path odd => cases odd <;> simp [severity, wording, ValueCaution.wording, Code.text]
  | _ => simp [severity, wording, Code.text]

theorem Problem.filedAt_report (p : Problem) (loc : Location) : (p.report loc).FiledAt loc := by
  refine ⟨p.report_location? loc, p.wording.code, rfl, ?_⟩
  rw [← p.severity_eq_warning_iff]
  exact decide_eq_true_iff

namespace SourceUnit

variable {loc : Location} {u v : SourceUnit}

/-- From the first unit to the second, rows and reports are added at a location. The tables and the
platform stay, and no inline directory is forgotten. -/
structure Appends (loc : Location) (u v : SourceUnit) : Prop where
  symbols : ∃ rows, v.content.symbols = u.content.symbols ++ rows
    ∧ ∀ s ∈ rows, s.location = some loc
  diagnostics : ∃ reports, v.diagnostics = u.diagnostics ++ reports
    ∧ ∀ d ∈ reports, d.FiledAt loc
  directories : u.directories <+: v.directories
  catalog : v.catalog = u.catalog
  platform : v.platform = u.platform

theorem Writes.appends {paths : List (String × String)} (h : Writes loc paths u v) :
    Appends loc u v := by
  obtain ⟨rows, hgrows, hrows⟩ := h.content
  obtain ⟨problems, hproblems⟩ := h.diagnostics
  refine ⟨⟨rows, Section.symbols_of_grows hgrows, fun s hs => (hrows s hs).1⟩, ⟨_, hproblems, ?_⟩,
    ⟨paths, h.directories.symm⟩, h.catalog, h.platform⟩
  intro d hd
  obtain ⟨p, -, rfl⟩ := List.mem_map.1 hd
  exact p.filedAt_report loc

theorem Appends.prefix_diagnostics (h : Appends loc u v) : u.diagnostics <+: v.diagnostics := by
  obtain ⟨reports, hreports, -⟩ := h.diagnostics
  exact ⟨reports, hreports.symm⟩

theorem writing_refuseText (e : Element) (suggestion : Option String) :
    Writing e.location (refuseText e suggestion) :=
  .ite (.report _ _) (.pure _)

theorem writing_refuseAttribute (e : Element) (a : Attribute) :
    Writing e.location (refuseAttribute e a) :=
  .ite (.pure _) (.report _ _)

end SourceUnit

/-- What a source or an extension asks of a unit. -/
inductive Call : Type 1 where
  | build (op : Operation)
  | read {α : Type} (x : Coercion.Accessor α) (loc : Location) (a : Attribute)
  | refuseText (e : Element) (suggestion : Option String)
  | refuseAttribute (e : Element) (a : Attribute)
  | refuseElement (parent child : Element)
  | refuseUnhandled (parent e : Element)

namespace Call

open SourceUnit

/-- The location that is given, and otherwise that of the element with the fault. -/
def location : Call → Location
  | build op => op.location
  | read _ loc _ => loc
  | refuseText e _ | refuseAttribute e _ | refuseElement _ e | refuseUnhandled _ e => e.location

def perform : Call → SourceUnit → SourceUnit
  | build op, u => op.perform u
  | read x loc a, u => (readAttribute x.coercion loc a u).2
  | refuseText e suggestion, u => (SourceUnit.refuseText e suggestion u).2
  | refuseAttribute e a, u => (SourceUnit.refuseAttribute e a u).2
  | refuseElement parent child, u => (SourceUnit.refuseElement parent child u).2
  | refuseUnhandled parent e, u => (SourceUnit.refuseUnhandled parent e u).2

def performAll (calls : List Call) (u : SourceUnit) : SourceUnit :=
  calls.foldl (fun u call => call.perform u) u

theorem appends_perform (call : Call) (u : SourceUnit) :
    Appends call.location u (call.perform u) := by
  cases call with
  | build op =>
    obtain ⟨paths, h⟩ := op.writes_perform_any u
    exact h.appends
  | read x loc a => exact (Writing.readAttribute (x.ends a) loc u).appends
  | refuseText e suggestion => exact (writing_refuseText e suggestion u).appends
  | refuseAttribute e a => exact (writing_refuseAttribute e a u).appends
  | refuseElement parent child => exact (Writing.report _ child.location u).appends
  | refuseUnhandled parent e => exact (Writing.report _ e.location u).appends

theorem diagnostics_prefix_performAll : ∀ (calls : List Call) (u : SourceUnit),
    u.diagnostics <+: (performAll calls u).diagnostics
  | [], _ => List.prefix_rfl
  | call :: calls, u =>
    (call.appends_perform u).prefix_diagnostics.trans
      (diagnostics_prefix_performAll calls (call.perform u))

/-- Every call only appends, at its own location, and an error once reported stays to the end of
the run. -/
theorem perform_only_appends :
    (∀ (call : Call) (u : SourceUnit), Appends call.location u (call.perform u))
      ∧ ∀ (before after : List Call) (u : SourceUnit), (performAll before u).anyError →
        (performAll (before ++ after) u).anyError := by
  refine ⟨appends_perform, fun before after u herror => ?_⟩
  have hsplit : performAll (before ++ after) u = performAll after (performAll before u) :=
    List.foldl_append
  rw [hsplit]
  rw [SourceUnit.anyError, Collector.hasErrors_eq] at herror ⊢
  exact Diagnostic.anyError_mono (diagnostics_prefix_performAll after _) herror

end Call

end InstallerAnalysis
