import InstallerAnalysis.Compilation
import InstallerAnalysis.Proofs.TypedRuns
import Mathlib.Data.List.Forall2

/-!
# Registered tables

A list of tables is added to a catalog as a whole, or refused at the first table that repeats a
name (`insertAll_cases`). Later, a table that is registered comes last or changes nothing, and no
other step touches the catalog (`catalog_cases`). So a name means the table that was first tried
under it: `Collects` says this of a catalog and of all the tables that were tried so far.
-/

namespace InstallerAnalysis

namespace Catalog

variable {c c' : Catalog} {t : Table} {ts tried : List Table}

theorem names_of_tables (h : c'.tables = c.tables ++ ts) :
    c'.names = c.names ++ ts.map (·.name) := by
  simp [names, h]

/-- A table is refused exactly if its name is taken, and otherwise comes last. -/
theorem insert_cases (c : Catalog) (t : Table) :
    t.name ∈ c.names ∧ c.insert t = .error (.duplicateTable t.name)
      ∨ t.name ∉ c.names ∧ ∃ c', c.insert t = .ok c' ∧ c'.tables = c.tables ++ [t] := by
  by_cases h : t.name ∈ c.names
  · exact .inl ⟨h, dif_pos h⟩
  · exact .inr ⟨h, _, dif_neg h, rfl⟩

theorem insert_eq_error_iff : (∃ fault, c.insert t = .error fault) ↔ t.name ∈ c.names := by
  obtain ⟨hmem, hi⟩ | ⟨hmem, c', hi, -⟩ := c.insert_cases t <;> simp [hmem, hi]

/-! ## Lists of tables -/

/-- The table at a place of the list has a name of the catalog, or of an earlier table. -/
def Repeats (c : Catalog) (ts : List Table) (i : Nat) (t : Table) : Prop :=
  ts[i]? = some t ∧ (t.name ∈ c.names ∨ ∃ s ∈ ts.take i, s.name = t.name)

/-- The table at a place is the first that repeats a name. -/
def RepeatsFirst (c : Catalog) (ts : List Table) (i : Nat) (t : Table) : Prop :=
  c.Repeats ts i t ∧ ∀ j < i, ∀ s, ¬ c.Repeats ts j s

theorem repeats_zero {first : Table} :
    c.Repeats (first :: ts) 0 t ↔ t = first ∧ first.name ∈ c.names := by
  simp only [Repeats, List.getElem?_cons_zero, Option.some.injEq, List.take_zero, List.not_mem_nil,
    false_and, exists_false, or_false]
  exact ⟨fun ⟨heq, hmem⟩ => ⟨heq.symm, heq ▸ hmem⟩, fun ⟨heq, hmem⟩ => ⟨heq.symm, heq ▸ hmem⟩⟩

/-- A table that was added counts as one of the catalog for those after it. -/
theorem repeats_succ {first : Table} {i : Nat} (h : c'.tables = c.tables ++ [first]) :
    c.Repeats (first :: ts) (i + 1) t ↔ c'.Repeats ts i t := by
  simp only [Repeats, List.getElem?_cons_succ, List.take_succ_cons, List.exists_mem_cons_iff,
    names_of_tables h, List.map_singleton, List.mem_append, List.mem_singleton, or_assoc]
  rw [eq_comm (a := first.name)]

theorem insertAll_cons : c.insertAll (t :: ts) = (c.insert t).bind (·.insertAll ts) :=
  List.foldlM_cons

/-- The tables are all added at the end, or the first one that repeats a name is refused. -/
theorem insertAll_cases : ∀ (ts : List Table) (c : Catalog),
    (∃ i t, c.RepeatsFirst ts i t ∧ c.insertAll ts = .error (.duplicateTable t.name))
      ∨ (∀ i t, ¬ c.Repeats ts i t)
        ∧ ∃ c', c.insertAll ts = .ok c' ∧ c'.tables = c.tables ++ ts
  | [], c => .inr ⟨by simp [Repeats], c, rfl, by simp⟩
  | first :: ts, c => by
    rw [insertAll_cons]
    -- places in the rest are one lower, and the first table is in the catalog by then
    obtain ⟨hmem, hi⟩ | ⟨hmem, c', hi, htables⟩ := c.insert_cases first
    · rw [hi]
      exact .inl ⟨0, first, ⟨repeats_zero.2 ⟨rfl, hmem⟩, by simp⟩, rfl⟩
    · rw [hi]
      have hzero : ∀ s, ¬ c.Repeats (first :: ts) 0 s := fun s hs => hmem (repeats_zero.1 hs).2
      obtain ⟨i, t, ⟨ht, hfirst⟩, hall⟩ | ⟨hnone, c'', hall, htables'⟩ := insertAll_cases ts c'
      · refine .inl ⟨i + 1, t, ⟨(repeats_succ htables).2 ht, fun j hj s => ?_⟩, hall⟩
        cases j with
        | zero => exact hzero s
        | succ j => exact (repeats_succ htables).not.2 (hfirst j (by omega) s)
      · refine .inr ⟨fun j s => ?_, c'', hall, by simp [htables', htables]⟩
        cases j with
        | zero => exact hzero s
        | succ j => exact (repeats_succ htables).not.2 (hnone j s)

/-! ## Names -/

/-- A name means the first table of that name among those that were tried. -/
def Collects (tried : List Table) (c : Catalog) : Prop :=
  ∀ name, c.get? name = tried.find? (·.name = name)

theorem collects_tables (c : Catalog) : Collects c.tables c :=
  fun _ => rfl

theorem isSome_get?_iff {name : String} : (c.get? name).isSome ↔ name ∈ c.names := by
  simp [get?, names]

namespace Collects

theorem added (h : Collects tried c) (htables : c'.tables = c.tables ++ [t]) :
    Collects (tried ++ [t]) c' := by
  intro name
  rw [get?, htables, List.find?_append, List.find?_append, ← h name]
  rfl

theorem refused (h : Collects tried c) (hname : t.name ∈ c.names) : Collects (tried ++ [t]) c := by
  intro name
  rw [List.find?_append, ← h name]
  by_cases hn : t.name = name
  · rw [Option.or_of_isSome (isSome_get?_iff.2 (hn ▸ hname))]
  · simp [hn]

theorem lookup_eq_ok_iff (h : Collects tried c) {name : String} :
    c.lookup name = .ok t ↔ tried.find? (·.name = name) = some t := by
  rw [lookup, h name]
  cases tried.find? (·.name = name) <;> simp

end Collects

end Catalog

namespace Config

/-- A table that a configuration describes has the name of its entry and the same columns, in the
same order. -/
def TableEntry.Describes (e : TableEntry) (t : Table) : Prop :=
  t.name = e.name
    ∧ List.Forall₂ (fun entry column => column.name = entry.name ∧ column.kind = entry.kind)
      e.columns t.columns

theorem TableEntry.describes_toTable (e : TableEntry) : e.Describes e.toTable :=
  ⟨rfl, List.forall₂_map_right_iff.2 <| List.forall₂_same.2 fun _ _ => ⟨rfl, rfl⟩⟩

theorem describes_tables (config : Config) :
    List.Forall₂ TableEntry.Describes config.extraTables config.tables :=
  List.forall₂_map_right_iff.2 <| List.forall₂_same.2 fun e _ => e.describes_toTable

end Config

namespace Compilation

theorem startMessage_duplicateTable (name : String) : startMessage (.duplicateTable name)
    = "Configuration error: symbol definition `" ++ name ++ "` is already registered" := by
  have hstart : "Configuration error: " ++ "symbol definition `"
      = "Configuration error: symbol definition `" := by decide
  show "Configuration error: " ++ ("symbol definition `" ++ name ++ "` is already registered") = _
  rw [← String.append_assoc, ← String.append_assoc, hstart]

/-- A compilation starts with the built-in tables and then the configured ones, unless one of
these repeats a name. -/
theorem start_cases (id : String) (config : Config) :
    (∃ i t, Catalog.builtin.RepeatsFirst config.tables i t
        ∧ start id config = .error (.duplicateTable t.name))
      ∨ (∀ i t, ¬ Catalog.builtin.Repeats config.tables i t)
        ∧ ∃ c, start id config = .ok c
          ∧ c.catalog.tables = Schema.builtin ++ config.tables := by
  unfold start
  obtain ⟨i, t, ht, hall⟩ | ⟨hnone, catalog, hall, htables⟩ :=
    Catalog.insertAll_cases config.tables Catalog.builtin
  · rw [hall]
    exact .inl ⟨i, t, ht, rfl⟩
  · rw [hall]
    exact .inr ⟨hnone, _, rfl, htables⟩

end Compilation

namespace Workbench

open Catalog (Collects)

/-- The table that a step tries to register. -/
def Step.tried? : Step → Option Table
  | register t => some t
  | _ => none

/-- The table that a step registers. -/
def Step.added? (b : Workbench) : Step → Option Table
  | register t => (b.unit.catalog.insert t).toOption.map fun _ => t
  | _ => none

/-- The tables that the steps of a run register, in order. -/
def added : List Step → Workbench → List Table
  | [], _ => []
  | step :: steps, b => (step.added? b).toList ++ added steps (step.perform b)

variable {b : Workbench} {t : Table} {tried : List Table}

theorem register_of_mem (h : t.name ∈ b.unit.catalog.names) :
    (Step.register t).perform b = b := by
  obtain ⟨-, hi⟩ | ⟨hmem, -⟩ := b.unit.catalog.insert_cases t
  · simp [Step.perform, hi]
  · exact absurd h hmem

/-- A step adds the table that it tries to register, or leaves the catalog as it is: then it tries
to register none, or the name is taken. -/
theorem catalog_cases (step : Step) (b : Workbench) :
    (∃ t, step.tried? = some t ∧ step.added? b = some t
        ∧ (step.perform b).unit.catalog.tables = b.unit.catalog.tables ++ [t])
      ∨ step.added? b = none ∧ (step.perform b).unit.catalog = b.unit.catalog
        ∧ ∀ t, step.tried? = some t → t.name ∈ b.unit.catalog.names := by
  cases step with
  | register t =>
    obtain ⟨hmem, hi⟩ | ⟨-, c', hi, htables⟩ := b.unit.catalog.insert_cases t
    · refine .inr ⟨by simp [Step.added?, hi, Except.toOption], by rw [register_of_mem hmem], ?_⟩
      rintro _ ⟨⟩
      exact hmem
    · refine .inl ⟨t, rfl, by simp [Step.added?, hi, Except.toOption], ?_⟩
      simp [Step.perform, hi, htables]
  | build op =>
    obtain ⟨paths, hw⟩ := op.writes_perform_any b.unit
    exact .inr ⟨rfl, hw.catalog, by simp [Step.tried?]⟩
  | addDraft index | pushDraft index =>
    refine .inr ⟨rfl, ?_, by simp [Step.tried?]⟩
    simp only [Step.perform]
    split <;> rfl
  | _ => exact .inr ⟨rfl, rfl, by simp [Step.tried?]⟩

theorem tables_perform (step : Step) (b : Workbench) :
    (step.perform b).unit.catalog.tables = b.unit.catalog.tables ++ (step.added? b).toList := by
  obtain ⟨t, -, hadded, htables⟩ | ⟨hadded, hcatalog, -⟩ := catalog_cases step b
  · rw [hadded, htables, Option.toList_some]
  · rw [hadded, hcatalog, Option.toList_none, List.append_nil]

theorem collects_perform (h : Collects tried b.unit.catalog) (step : Step) :
    Collects (tried ++ step.tried?.toList) (step.perform b).unit.catalog := by
  obtain ⟨t, htried, -, htables⟩ | ⟨-, hcatalog, hmem⟩ := catalog_cases step b
  · rw [htried]
    exact h.added htables
  · rw [hcatalog]
    cases htried : step.tried? with
    | none => simpa using h
    | some t => exact h.refused (hmem t htried)

theorem tables_performAll : ∀ (steps : List Step) (b : Workbench),
    (performAll steps b).unit.catalog.tables = b.unit.catalog.tables ++ added steps b
  | [], b => by simp [performAll, added]
  | step :: steps, b => by
    rw [added, ← List.append_assoc, ← tables_perform]
    exact tables_performAll steps (step.perform b)

theorem collects_performAll : ∀ (steps : List Step) {b : Workbench} {tried : List Table},
    Collects tried b.unit.catalog →
      Collects (tried ++ steps.filterMap Step.tried?) (performAll steps b).unit.catalog
  | [], _, _, h => by simpa [performAll] using h
  | step :: steps, b, tried, h => by
    have hrest := collects_performAll steps (collects_perform h step)
    have hlist : tried ++ (step :: steps).filterMap Step.tried?
        = tried ++ step.tried?.toList ++ steps.filterMap Step.tried? := by
      cases ht : step.tried? <;> simp [ht]
    rw [hlist]
    exact hrest

/-- The configured tables are those that the entries describe, each with its columns in order. A
compilation does not start exactly if one of them has the name of a built-in or of an earlier one,
and the first such table is named. Later, along every run, a table is refused exactly if its name
is taken, and then nothing changes; the tables are the built-in ones, the configured ones and those
that were registered, in order and with distinct names; and a name means the first table that was
tried under it. -/
theorem catalog_performAll (id : String) (config : Config) :
    List.Forall₂ Config.TableEntry.Describes config.extraTables config.tables
      ∧ ((∃ fault, Compilation.start id config = .error fault)
        ↔ ∃ i t, Catalog.builtin.Repeats config.tables i t)
      ∧ (∀ fault, Compilation.start id config = .error fault →
          ∃ i t, Catalog.builtin.RepeatsFirst config.tables i t
            ∧ fault = .duplicateTable t.name ∧ Compilation.startMessage fault
              = "Configuration error: symbol definition `" ++ t.name ++ "` is already registered")
      ∧ ∀ c, Compilation.start id config = .ok c → ∀ name place steps,
          let start : Workbench := { unit := c.newUnit name place }
          let b := performAll steps start
          let catalog := b.unit.catalog
          (∀ t, ((∃ fault, catalog.insert t = .error fault) ↔ t.name ∈ catalog.names)
              ∧ (t.name ∈ catalog.names → (Step.register t).perform b = b))
            ∧ (∀ n t, catalog.lookup n = .ok t ↔ (Schema.builtin ++ config.tables
                ++ steps.filterMap Step.tried?).find? (·.name = n) = some t)
            ∧ catalog.tables = Schema.builtin ++ config.tables ++ added steps start
            ∧ catalog.names.Nodup := by
  refine ⟨config.describes_tables, ?_⟩
  obtain ⟨i, t, ht, hstart⟩ | ⟨hnone, c, hstart, htables⟩ := Compilation.start_cases id config
  · rw [hstart]
    refine ⟨⟨fun _ => ⟨i, t, ht.1⟩, fun _ => ⟨_, rfl⟩⟩, ?_, ?_⟩
    · rintro fault ⟨⟩
      exact ⟨i, t, ht, rfl, Compilation.startMessage_duplicateTable t.name⟩
    · rintro c ⟨⟩
  · rw [hstart]
    refine ⟨by simp [hnone], by simp, ?_⟩
    rintro c ⟨⟩ name place steps start b catalog
    have hcollects : Collects (Schema.builtin ++ config.tables) start.unit.catalog :=
      htables ▸ Catalog.collects_tables c.catalog
    refine ⟨fun t => ⟨Catalog.insert_eq_error_iff, register_of_mem⟩,
      fun n t => (collects_performAll steps hcollects).lookup_eq_ok_iff, ?_, catalog.distinct⟩
    rw [← htables]
    exact tables_performAll steps start

section Registrations

/-- A table besides the built-in ones. -/
def firewall : Table :=
  ⟨"Firewall", [⟨"Port", .string⟩, ⟨"Scope", .number⟩]⟩

/-- A configuration that is given the table as it is. -/
def describing : Config :=
  { extraTables := ([firewall] : List Table) }

/-- The second and the third table repeat a name. -/
def repeating : Config :=
  { extraTables := [{ name := "Rule" }, { name := "Directory" }, { name := "Rule" }] }

/-- A configured, a built-in and a new table are registered, and the new one once more. -/
def registrations : List Step :=
  [.register ⟨"Firewall", []⟩, .register ⟨"Directory", []⟩, .register ⟨"Rule", [⟨"Id", .string⟩]⟩,
    .build (.requiredTable ⟨"setup.xml", some 1⟩ (.named "Rule")), .register ⟨"Rule", []⟩]

theorem catalog_performAll_registrations :
    Compilation.start "Setup" repeating = .error (.duplicateTable "Directory")
      ∧ (∃ i t, Catalog.builtin.RepeatsFirst repeating.tables i t ∧ t.name = "Directory")
      ∧ ∃ c, Compilation.start "Setup" describing = .ok c
        ∧ let b := performAll registrations { unit := c.newUnit "Main" none }
          b.unit.catalog.tables = Schema.builtin ++ [firewall, ⟨"Rule", [⟨"Id", .string⟩]⟩]
            ∧ b.unit.catalog.lookup "Firewall" = .ok firewall
            ∧ (Step.register ⟨"Rule", []⟩).perform b = b := by
  have hrefused : Compilation.start "Setup" repeating = .error (.duplicateTable "Directory") := rfl
  obtain ⟨i, t, ht, hfault, -⟩ := (catalog_performAll "Setup" repeating).2.2.1 _ hrefused
  refine ⟨hrefused, ⟨i, t, ht, (SchemaFault.duplicateTable.inj hfault).symm⟩, _, rfl, ?_⟩
  obtain ⟨hrefuse, hlookup, htables, -⟩ :=
    (catalog_performAll "Setup" describing).2.2.2 _ rfl "Main" none registrations
  refine ⟨htables, (hlookup _ _).2 rfl, (hrefuse ⟨"Rule", []⟩).2 ?_⟩
  rw [Catalog.names, htables]
  decide

end Registrations

end Workbench

end InstallerAnalysis
