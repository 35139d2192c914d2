import InstallerAnalysis.Compilation
import Mathlib.Data.List.Forall2

/-!
# What a compilation comes to

A unit is settled by the mark of its reports, which is set exactly by the errors among them
(`settle_eq`). Whether a unit is rejected is not kept: a compilation fails when some report of a
rejected unit is left over. `exists_error_of_not_clean` is why none is lost on the way: of the
reports that keep a unit out at least one is kept, and as an error. So a run over units accepts
exactly the clean ones and fails exactly if one was not clean (`conclude_receiveAll`).
-/

namespace InstallerAnalysis

namespace Diagnostic

theorem isError_iff_not_isWarning (d : Diagnostic) : d.isError ↔ ¬ d.isWarning := by
  unfold isError isWarning
  cases d.severity <;> simp

theorem isError_promote (d : Diagnostic) : d.promote.isError := by
  simp [promote, isError]

theorem promote_of_isError {d : Diagnostic} (h : d.isError) : d.promote = d := by
  simp only [isError, decide_eq_true_eq] at h
  simp [promote, ← h]

end Diagnostic

namespace Compilation

/-- A unit that made no errors, and no reports at all where warnings count as errors. -/
def Clean (config : Config) (u : SourceUnit) : Prop :=
  (∀ d ∈ u.diagnostics, ¬ d.isError) ∧ (config.warningsAsErrors → u.diagnostics = [])

instance (config : Config) (u : SourceUnit) : Decidable (Clean config u) :=
  inferInstanceAs (Decidable (_ ∧ _))

/-- Takes in units one after the other, with the answer for each. -/
def receiveAll (c : Compilation) : List SourceUnit → Compilation × List Bool
  | [] => (c, [])
  | u :: us =>
    let next := c.receive u
    let rest := next.1.receiveAll us
    (rest.1, next.2 :: rest.2)

/-- The reports of a rejected unit as an author gets to see them. -/
def shownFailures (config : Config) (u : SourceUnit) : List Diagnostic :=
  if config.warningsAsErrors then
    u.diagnostics.map fun d => if d.isWarning then d.promote else d
  else if config.suppressWarnings then u.diagnostics.filter (¬ ·.isWarning)
  else u.diagnostics

variable {config : Config} {u : SourceUnit}

/-- The mark of a unit's reports is set exactly if one of them is an error. -/
theorem anyError_iff : u.anyError ↔ ∃ d ∈ u.diagnostics, d.isError := by
  rw [SourceUnit.anyError, u.reports.hasErrors_eq]
  exact List.any_eq_true

theorem settle_eq : settle config u.reports
    = if Clean config u then .ok u.diagnostics else .error u.diagnostics := by
  unfold settle Collector.finish
  by_cases he : u.reports.hasErrors
  · have hclean : ¬ Clean config u := by
      obtain ⟨d, hd, hde⟩ := anyError_iff.1 he
      exact fun h => h.1 d hd hde
    rw [if_pos he, if_neg hclean]
    rfl
  · have hclean : Clean config u ↔ (config.warningsAsErrors → u.diagnostics = []) :=
      and_iff_right fun d hd hde => he (anyError_iff.2 ⟨d, hd, hde⟩)
    rw [if_neg he]
    cases hw : config.warningsAsErrors <;> cases hds : u.reports.diagnostics <;>
      simp [hclean, hw, hds, SourceUnit.diagnostics]

theorem keptFailures_eq : keptFailures config u.diagnostics = shownFailures config u := by
  unfold keptFailures shownFailures
  split_ifs
  · refine List.map_congr_left fun d _ => ?_
    split_ifs with hd
    · rfl
    · exact Diagnostic.promote_of_isError (d.isError_iff_not_isWarning.2 hd)
  · simp
  · rfl

/-- A unit is never rejected without an error to show for it. -/
theorem exists_error_of_not_clean (h : ¬ Clean config u) :
    ∃ d ∈ shownFailures config u, d.isError := by
  unfold shownFailures
  by_cases hp : config.warningsAsErrors
  · have hne : u.diagnostics ≠ [] := by
      rintro hnil
      exact h ⟨by simp [hnil], fun _ => hnil⟩
    obtain ⟨d, hd⟩ := List.exists_mem_of_ne_nil _ hne
    rw [if_pos hp]
    refine ⟨_, List.mem_map.2 ⟨d, hd, rfl⟩, ?_⟩
    split_ifs with hw
    · exact d.isError_promote
    · exact d.isError_iff_not_isWarning.2 hw
  · obtain ⟨d, hd, he⟩ : ∃ d ∈ u.diagnostics, d.isError := by
      by_contra hno
      push Not at hno
      exact h ⟨by simpa using hno, fun hc => absurd hc hp⟩
    rw [if_neg hp]
    split_ifs
    · exact ⟨d, List.mem_filter.2 ⟨hd, by simpa using (d.isError_iff_not_isWarning.1 he)⟩, he⟩
    · exact ⟨d, hd, he⟩

theorem receive_of_clean {c : Compilation} (h : Clean c.config u) :
    c.receive u = ({ c with
      accepted := { c.accepted with sections := c.accepted.sections ++ [u.content] }
      warnings := c.warnings ++ keptWarnings c.config u.diagnostics }, true) := by
  rw [receive, settle_eq, if_pos h]

theorem receive_of_not_clean {c : Compilation} (h : ¬ Clean c.config u) :
    c.receive u = ({ c with failures := c.failures ++ shownFailures c.config u }, false) := by
  rw [receive, settle_eq, if_neg h, ← keptFailures_eq]

/-- What a run over units has collected, and what it answered to each. -/
theorem receiveAll_eq : ∀ (units : List SourceUnit) (c : Compilation),
    c.receiveAll units = ({ c with
      accepted := { c.accepted with
        sections := c.accepted.sections
          ++ (units.filter (Clean c.config ·)).map (·.content) }
      warnings := c.warnings
        ++ (units.filter (Clean c.config ·)).flatMap (keptWarnings c.config ·.diagnostics)
      failures := c.failures
        ++ (units.filter (¬ Clean c.config ·)).flatMap (shownFailures c.config) },
      units.map (decide <| Clean c.config ·))
  | [], c => by simp [receiveAll]
  | u :: us, c => by
    by_cases h : Clean c.config u
    · simp only [receiveAll, receive_of_clean h, receiveAll_eq us]
      simp [h]
    · simp only [receiveAll, receive_of_not_clean h, receiveAll_eq us]
      simp [h]

theorem start_eq_ok {id : String} {c : Compilation} (h : start id config = .ok c) :
    c.config = config ∧ c.accepted = { id := id } ∧ c.warnings = [] ∧ c.failures = [] := by
  unfold start at h
  rcases hc : Catalog.builtin.insertAll config.tables with fault | catalog <;> rw [hc] at h
  · cases h
  · cases h
    exact ⟨rfl, rfl, rfl, rfl⟩

theorem keptWarnings_of_clean (h : Clean config u) : keptWarnings config u.diagnostics
    = if config.suppressWarnings || config.warningsAsErrors then []
      else u.diagnostics.filter (·.isWarning) := by
  unfold keptWarnings
  by_cases hs : config.suppressWarnings
  · simp [hs]
  · by_cases hw : config.warningsAsErrors
    · simp [hs, hw, h.2 hw]
    · have hall : u.diagnostics.filter (·.isWarning) = u.diagnostics := by
        refine List.filter_eq_self.2 fun d hd => ?_
        simpa [Diagnostic.isError_iff_not_isWarning] using h.1 d hd
      simp [hs, hw, hall]

theorem shownFailures_eq_nil_iff (config : Config) (units : List SourceUnit) :
    (units.filter (¬ Clean config ·)).flatMap (shownFailures config) = []
      ↔ ∀ u ∈ units, Clean config u := by
  rw [List.flatMap_eq_nil_iff]
  refine ⟨fun hnil u hu => ?_, fun hall u hu => ?_⟩
  · by_contra hc
    obtain ⟨d, hd, -⟩ := exists_error_of_not_clean hc
    rw [hnil u (List.mem_filter.2 ⟨hu, by simpa using hc⟩)] at hd
    cases hd
  · have hu' := List.mem_filter.1 hu
    exact absurd (hall u hu'.1) (by simpa using hu'.2)

/-- A compilation accepts exactly the clean units, and comes to something exactly if all were
clean: to their sections, and their warnings where those are wanted. Otherwise it fails with the
reports of the units that were not clean, an error among them. -/
theorem conclude_receiveAll {id : String} {config : Config} {c : Compilation}
    (h : start id config = .ok c) (units : List SourceUnit) :
    List.Forall₂ (fun u answer => answer = true ↔ Clean config u) units (c.receiveAll units).2
      ∧ ((∃ out, (c.receiveAll units).1.conclude = .ok out)
          ↔ ∀ answer ∈ (c.receiveAll units).2, answer = true)
      ∧ (∀ out, (c.receiveAll units).1.conclude = .ok out →
          out.intermediate = ⟨id, units.map (·.content)⟩
            ∧ out.warnings = if config.suppressWarnings || config.warningsAsErrors then []
                else units.flatMap fun u => u.diagnostics.filter (·.isWarning))
      ∧ ∀ ds, (c.receiveAll units).1.conclude = .error ds →
          ds = (units.filter (¬ Clean config ·)).flatMap (shownFailures config)
            ∧ ∃ d ∈ ds, d.isError := by
  obtain ⟨rfl, hacc, hwarn, hfail⟩ := start_eq_ok h
  rw [receiveAll_eq]
  unfold conclude
  simp only [hacc, hwarn, hfail, List.nil_append, List.isEmpty_iff, shownFailures_eq_nil_iff]
  refine ⟨?_, ?_, ?_, ?_⟩
  · rw [List.forall₂_map_right_iff]
    exact List.forall₂_same.2 fun u _ => decide_eq_true_iff
  · split_ifs with hall
    · simpa using hall
    · simpa using hall
  · intro out hout
    split_ifs at hout with hall
    simp only [Except.ok.injEq] at hout
    subst hout
    have hself : units.filter (Clean c.config ·) = units :=
      List.filter_eq_self.2 fun u hu => decide_eq_true (hall u hu)
    simp only [hself, true_and]
    rw [List.flatMap_congr fun u hu => keptWarnings_of_clean (hall u hu)]
    split_ifs <;> simp
  · intro ds hds
    split_ifs at hds with hall
    simp only [Except.error.injEq] at hds
    subst hds
    push Not at hall
    obtain ⟨u, hu, hc⟩ := hall
    obtain ⟨d, hd, he⟩ := exists_error_of_not_clean hc
    exact ⟨rfl, d, List.mem_flatMap.2 ⟨u, List.mem_filter.2 ⟨hu, by simpa using hc⟩, hd⟩, he⟩

/-- Warnings are errors, although they are suppressed as well. -/
def strict : Config := { warningsAsErrors := true, suppressWarnings := true }

/-- A unit without reports, and one with a warning. -/
def oddUnits : List SourceUnit :=
  [{ catalog := Catalog.builtin, content := { id := "Main" } },
    { catalog := Catalog.builtin, content := { id := "Other" }
      reports := ({} : Collector).emit { severity := .warning, message := "odd" } }]

theorem conclude_receiveAll_oddUnits : ∃ c, start "Setup" strict = .ok c
    ∧ ∃ ds, (c.receiveAll oddUnits).1.conclude = .error ds ∧ ∃ d ∈ ds, d.isError := by
  have hstart : start "Setup" strict
      = .ok { config := strict, catalog := Catalog.builtin, accepted := { id := "Setup" } } := rfl
  exact ⟨_, hstart, _, rfl, ((conclude_receiveAll hstart oddUnits).2.2.2 _ rfl).2⟩

end Compilation

end InstallerAnalysis
