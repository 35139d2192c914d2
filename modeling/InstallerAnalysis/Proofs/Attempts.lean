import InstallerAnalysis.Proofs.ActionSchedules

/-!
# Builders that can fail

A builder that fails reports one error and leaves all else as it was, and one that succeeds reports
nothing (`Attempt`). That holds of adding a row. Registry values, actions and searches are added by
first trying their own row; what they refer to is written only afterwards, and never refused, so
they inherit it (`Attempt.guard`). The one exception is a search that comes after another one: its
relation may be refused when the search itself was accepted.
-/

namespace InstallerAnalysis

namespace SourceUnit

variable {α : Type} {failed : α → Prop} {codes : List String} {loc : Location} {u : SourceUnit}

/-- All that happened is that one error was reported, with one of the codes. -/
def Refused (codes : List String) (u v : SourceUnit) : Prop :=
  ∃ d : Diagnostic, d.isError ∧ (∃ code ∈ codes, d.code.map Code.text = some code)
    ∧ v = u.withReports [d]

def FailsClean (failed : α → Prop) (codes : List String) (x : Analysis α) : Prop :=
  ∀ u, failed (x u).1 → Refused codes u (x u).2

/-- A failure is one error and no other change, and a success makes no report. -/
structure Attempt (failed : α → Prop) (codes : List String) (x : Analysis α) : Prop where
  refused : FailsClean failed codes x
  quiet : ∀ u, ¬ failed (x u).1 → (x u).2.diagnostics = u.diagnostics

theorem refused_report {p : Problem} (hp : p.severity = .error)
    (hc : p.wording.code.text ∈ codes) (loc : Location) (u : SourceUnit) :
    Refused codes u (report p loc u).2 := by
  refine ⟨p.report loc, ?_, ⟨_, hc, rfl⟩, rfl⟩
  simp [Diagnostic.isError, Problem.report, hp]

namespace Attempt

theorem of_cases {x : Analysis α} (h : ∀ u, (failed (x u).1 ∧ Refused codes u (x u).2)
    ∨ (¬ failed (x u).1 ∧ (x u).2.diagnostics = u.diagnostics)) : Attempt failed codes x := by
  refine ⟨fun u hu => ?_, fun u hu => ?_⟩
  · rcases h u with h | h
    · exact h.2
    · exact absurd hu h.1
  · rcases h u with h | h
    · exact absurd h.1 hu
    · exact h.2

theorem of_quiet {x : Analysis α} (hsome : ∀ u, ¬ failed (x u).1)
    (hquiet : ∀ u, (x u).2.diagnostics = u.diagnostics) : Attempt failed codes x :=
  ⟨fun u hu => absurd hu (hsome u), fun u _ => hquiet u⟩

theorem of_report {p : Problem} {a : α} (hp : p.severity = .error)
    (hc : p.wording.code.text ∈ codes) (ha : failed a) :
    Attempt failed codes (SourceUnit.report p loc >>= fun _ => Pure.pure a) :=
  ⟨fun u _ => refused_report hp hc loc u, fun _ hu => absurd ha hu⟩

theorem get {f : SourceUnit → Analysis α} (h : ∀ u, Attempt failed codes (f u)) :
    Attempt failed codes (MonadState.get >>= f) :=
  ⟨fun u => (h u).refused u, fun u => (h u).quiet u⟩

theorem ite {p : Prop} [Decidable p] {x y : Analysis α} (hx : Attempt failed codes x)
    (hy : Attempt failed codes y) : Attempt failed codes (if p then x else y) := by
  split_ifs
  · exact hx
  · exact hy

theorem mono {codes' : List String} {x : Analysis α} (h : Attempt failed codes x)
    (hsub : codes ⊆ codes') : Attempt failed codes' x := by
  refine ⟨fun u hu => ?_, h.quiet⟩
  obtain ⟨d, hd, ⟨code, hcode, hc⟩, hv⟩ := h.refused u hu
  exact ⟨d, hd, ⟨code, hsub hcode, hc⟩, hv⟩

end Attempt

section Guard

variable {test : Analysis Bool} {body : Analysis α} {a : α}

theorem FailsClean.guard (ht : FailsClean (· = false) codes test)
    (hsome : ∀ u, ¬ failed (body u).1) :
    FailsClean failed codes (test >>= fun b => if b then body else Pure.pure a) := by
  intro u hu
  rw [bind_apply] at hu ⊢
  rcases hb : (test u).1
  · rw [hb] at hu
    exact ht u hb
  · rw [hb, if_pos rfl] at hu
    exact absurd hu (hsome _)

/-- What follows a test that succeeded cannot fail and makes no report. -/
theorem Attempt.guard (ht : Attempt (· = false) codes test) (hsome : ∀ u, ¬ failed (body u).1)
    (hquiet : ∀ u, (body u).2.diagnostics = u.diagnostics) (ha : failed a) :
    Attempt failed codes (test >>= fun b => if b then body else Pure.pure a) := by
  refine ⟨ht.refused.guard hsome, fun u hu => ?_⟩
  rw [bind_apply] at hu ⊢
  rcases hb : (test u).1
  · rw [hb] at hu
    exact absurd ha hu
  · rw [if_pos rfl, hquiet]
    exact ht.quiet u (by simp [hb])

end Guard

/-! ## Rows -/

theorem createWith_cases (loc : Location) (table : TableRef) (id : Option Identifier)
    (fill : Symbol → Symbol × α) (u : SourceUnit) :
    ((∃ fault, u.catalog.lookupRef table = .error fault) ∧ createWith loc table id fill u
        = (none, (report (.unknownTable table.name) loc u).2))
      ∨ (∃ name id' first, createWith loc table id fill u
        = (none, (report (.duplicateSymbol name id' first) loc u).2))
      ∨ ∃ result content, createWith loc table id fill u
        = (some result, { u with content := content }) := by
  rcases hl : u.catalog.lookupRef table with fault | definition
  · exact .inl ⟨⟨fault, rfl⟩, createWith_unknown hl⟩
  · rcases ha : u.content.add (fill (Symbol.blank definition (some loc) id)).1
      with taken | content
    · exact .inr (.inl ⟨_, _, _, createWith_taken hl ha⟩)
    · exact .inr (.inr ⟨_, content, createWith_added hl ha⟩)

theorem attempt_createWith (loc : Location) (table : TableRef) (id : Option Identifier)
    (fill : Symbol → Symbol × α) :
    Attempt (· = none) ["E300", "E100"] (createWith loc table id fill) := by
  refine .of_cases fun u => ?_
  rcases createWith_cases loc table id fill u with ⟨-, h⟩ | ⟨_, _, _, h⟩ | ⟨_, _, h⟩ <;> rw [h]
  · exact .inl ⟨rfl, refused_report rfl (by simp [Problem.wording, Code.text]) loc u⟩
  · exact .inl ⟨rfl, refused_report rfl (by simp [Problem.wording, Code.text]) loc u⟩
  · exact .inr ⟨nofun, rfl⟩

theorem attempt_createRow (loc : Location) (table : Table) (id : Option Identifier)
    (fill : Symbol → Symbol) : Attempt (· = false) ["E100"] (createRow loc table id fill) := by
  refine .of_cases fun u => ?_
  rw [createRow, bind_apply]
  rcases createWith_cases loc (.given table) id (fun s => (fill s, ())) u
    with ⟨⟨fault, hf⟩, -⟩ | ⟨_, _, _, h⟩ | ⟨_, _, h⟩
  · -- a table that is given is not looked up
    cases hf
  · rw [h]
    exact .inl ⟨rfl, refused_report rfl (by simp [Problem.wording, Code.text]) loc u⟩
  · rw [h]
    exact .inr ⟨Bool.true_eq_false.mp, rfl⟩

/-! ## Builders -/

theorem attempt_createRegistryValue (e : Registry.Entry) :
    Attempt (· = none) ["E001", "E100"] (createRegistryValue loc e) := by
  unfold createRegistryValue
  refine .ite (.of_report rfl (by simp [Problem.wording, Code.text]) rfl) ?_
  exact ((attempt_createRow ..).mono (by simp)).guard (fun _ => nofun) (fun _ => rfl) rfl

theorem attempt_createSearchRelation (id : Identifier) (parent : String) (flags : Search.Flags) :
    Attempt (· = false) ["E102", "E100"] (createSearchRelation loc id parent flags) := by
  unfold createSearchRelation
  refine .ite (.of_report rfl (by simp [Problem.wording, Code.text]) rfl) ?_
  exact (attempt_createRow ..).mono (by simp)

theorem attempt_placeAction (a : Action.Schedule) :
    Attempt (· = false) ["E101", "E100"] (placeAction loc a) := by
  refine .get fun u => ?_
  rcases a.earlier u.content with _ | ⟨s, rows⟩
  · exact (attempt_createRow ..).mono (by simp)
  · dsimp only
    rcases List.find? _ (s :: rows) with _ | first
    · exact .of_quiet (fun _ => nofun) fun _ => rfl
    · exact .of_report rfl (by simp [Problem.wording, Code.text]) rfl

theorem attempt_addAction (a : Action.Schedule) :
    Attempt (· = none) ["E101", "E100"] (addAction loc a) := by
  refine (attempt_placeAction a).guard (fun _ => nofun) (fun u => ?_) rfl
  obtain ⟨content, h, -⟩ :=
    forM_referenceAction loc a.sequence (a.before.toList ++ a.after.toList) u
  rw [bind_apply, h]
  rfl

theorem failsClean_createSearch (e : Search.Entry) :
    FailsClean (· = false) ["E100"] (createSearch loc e) := by
  refine (attempt_createRow ..).refused.guard fun u => ?_
  rcases e.after with _ | earlier <;> rcases e.bundleExtension with _ | extension <;> exact nofun

theorem attempt_createSearch {e : Search.Entry} (h : e.after = none) :
    Attempt (· = false) ["E100"] (createSearch loc e) := by
  unfold createSearch
  rw [h]
  refine (attempt_createRow ..).guard (fun u => ?_) (fun u => ?_) rfl
  · rcases e.bundleExtension with _ | extension <;> exact nofun
  · rcases e.bundleExtension with _ | extension <;> rfl

theorem createRow_taken {table : Table} {id : Identifier} {fill : Symbol → Symbol} {index : Nat}
    (hfill : ∀ s, (fill s).key? = s.key?)
    (hl : u.content.keys.lookup (table.name, id.id) = some index) :
    Refused ["E100"] u (createRow loc table (some id) fill u).2 := by
  rw [createRow_held hfill hl]
  exact refused_report rfl (by simp [Problem.wording, Code.text]) loc u

/-- A failed builder leaves one error and no other trace, and a builder that succeeds reports
nothing, except that a search may be accepted while its relation is refused. No report is made for
a platform without a custom action. A directory gets its identifier even if that was taken. -/
theorem attempts_all_or_nothing (loc : Location) :
    (∀ {α : Type} table id (fill : Symbol → Symbol × α),
        Attempt (· = none) ["E300", "E100"] (createWith loc table id fill))
      ∧ (∀ e, Attempt (· = none) ["E001", "E100"] (createRegistryValue loc e))
      ∧ (∀ a, Attempt (· = none) ["E101", "E100"] (addAction loc a))
      ∧ (∀ id parent flags,
        Attempt (· = false) ["E102", "E100"] (createSearchRelation loc id parent flags))
      ∧ (∀ e, FailsClean (· = false) ["E100"] (createSearch loc e)
        ∧ (e.after = none → Attempt (· = false) ["E100"] (createSearch loc e)))
      ∧ (∀ name platform supported u,
        (referenceCustomAction loc name platform supported u).1 = none →
          (referenceCustomAction loc name platform supported u).2 = u)
      ∧ ∀ id parent names u,
        (createDirectory loc id parent names u).1
            = id.getD ((names.complete parent).identifier parent)
          ∧ ((u.content.keys.lookup (Schema.Directory.definition.name,
                (createDirectory loc id parent names u).1.id)).isSome →
              Refused ["E100"] u (createDirectory loc id parent names u).2) := by
  refine ⟨attempt_createWith loc, attempt_createRegistryValue, attempt_addAction,
    attempt_createSearchRelation, fun e => ⟨failsClean_createSearch e, attempt_createSearch⟩,
    fun name platform supported u => ?_, fun id parent names u => ⟨rfl, fun h => ?_⟩⟩
  · unfold referenceCustomAction
    rcases Identifier.ofPlatform? name platform supported with _ | id
    · exact fun _ => rfl
    · exact nofun
  · obtain ⟨index, hl⟩ := Option.isSome_iff_exists.1 h
    exact createRow_taken (fun _ => rfl) hl

end SourceUnit

end InstallerAnalysis
