import InstallerAnalysis.Proofs.Operations
import InstallerAnalysis.Proofs.SectionLookup

/-!
# Runs keep every symbol typed

On a workbench, symbols are made in any table, assigned to by name, and added or pushed into the
section of a unit, in any order with the calls of builders; a row of the section can be assigned to
or copied as well. Each step keeps rows and drafts typed (`Workbench.Typed.perform`), so that along
a run an assignment either changes nothing or what its name reads, and that alone.
-/

namespace InstallerAnalysis

namespace Symbol

/-- The symbol after an assignment, be it accepted or not. -/
def afterAssign (s : Symbol) (name : String) (value : FieldValue) : Symbol :=
  (s.assignAll [(name, value)]).1

/-- What follows from the outcome of an assignment: the fault says what is wrong, and the symbol is
as it was, or the value is read under the name, and under other names what was read before. -/
def Explains (s : Symbol) (name : String) (value : FieldValue) : Except SchemaFault Symbol → Prop
  | .error fault => s.afterAssign name value = s
      ∧ ((s.table.columns.find? (·.name = name) = none
          ∧ fault = .unknownField s.table.name name)
        ∨ ∃ column, s.table.columns.find? (·.name = name) = some column
          ∧ column.kind ≠ value.kind
          ∧ fault = .kindMismatch s.table.name name column.kind value.kind)
  | .ok s' => s.afterAssign name value = s'
      ∧ (∃ column, s.table.columns.find? (·.name = name) = some column
        ∧ column.kind = value.kind)
      ∧ s'.getNamed? name = some value
      ∧ ∀ other, other ≠ name → s'.getNamed? other = s.getNamed? other

variable {s s' : Symbol} {name : String} {value : FieldValue}

theorem afterAssign_of_error {fault : SchemaFault} (h : s.assign name value = .error fault) :
    s.afterAssign name value = s := by
  simp only [afterAssign, assignAll, h]

theorem afterAssign_of_ok (h : s.assign name value = .ok s') : s.afterAssign name value = s' := by
  simp only [afterAssign, assignAll, h]

theorem Typed.afterAssign (h : s.Typed) (name : String) (value : FieldValue) :
    (s.afterAssign name value).Typed :=
  Typed.assignAll [(name, value)] h

theorem getNamed?_eq_cell? {index : Nat} (h : s.table.columnIndex? name = some index) :
    s.getNamed? name = s.cell? index := by
  rw [getNamed?, h]
  rfl

/-- Columns of different names stand at different places. -/
theorem getNamed?_write_of_ne {index : Nat} {cell : Option FieldValue} {other : String}
    (hindex : s.table.columnIndex? name = some index) (hne : other ≠ name) :
    (s.write index cell).getNamed? other = s.getNamed? other := by
  have hsame : (s.write index cell).table = s.table := rfl
  rw [getNamed?, getNamed?, hsame]
  rcases hother : s.table.columnIndex? other with _ | place
  · rfl
  · have hplace : index ≠ place := by
      rintro rfl
      obtain ⟨column, hcolumn, hname, -⟩ := Table.columnIndex?_eq_some hindex
      obtain ⟨column', hcolumn', hname', -⟩ := Table.columnIndex?_eq_some hother
      obtain rfl : column = column' := Option.some.inj (hcolumn.symm.trans hcolumn')
      exact hne (hname'.symm.trans hname)
    exact cell?_write_of_ne hplace

theorem Typed.explains (h : s.Typed) (name : String) (value : FieldValue) :
    s.Explains name value (s.assign name value) := by
  obtain ⟨hfound, herror⟩
      | ⟨index, column, hindex, hcolumn, hfound, ⟨hkind, hok⟩ | ⟨hkind, herror⟩⟩ :=
    s.assign_cases name value
  · rw [herror]
    exact ⟨afterAssign_of_error herror, .inl ⟨hfound, rfl⟩⟩
  · rw [hok]
    refine ⟨afterAssign_of_ok hok, ⟨column, hfound, hkind⟩, ?_, fun other hne => ?_⟩
    · have hread : (s.write index (some value)).getNamed? name
          = (s.write index (some value)).cell? index := getNamed?_eq_cell? hindex
      rw [hread, cell?_write_self (h.lt_length hcolumn)]
    · exact getNamed?_write_of_ne hindex hne
  · rw [herror]
    exact ⟨afterAssign_of_error herror, .inr ⟨column, hfound, hkind, rfl⟩⟩

end Symbol

/-- A source unit, and symbols that are not in its section. -/
structure Workbench where
  unit : SourceUnit
  drafts : List Symbol := []

namespace Workbench

/-- The bench with other rows in the section. -/
def withContent (b : Workbench) (c : Section) : Workbench :=
  { b with unit := { b.unit with content := c } }

inductive Step where
  | build (op : Operation)
  | register (t : Table)
  | draft (table : Table) (location : Option Location) (id : Option Identifier)
  | copyRow (row : Nat)
  | assignDraft (index : Nat) (name : String) (value : FieldValue)
  | assignRow (row : Nat) (name : String) (value : FieldValue)
  | addDraft (index : Nat)
  | pushDraft (index : Nat)

/-- The bench after a step. A step that names no row or no draft changes nothing. -/
def Step.perform (b : Workbench) : Step → Workbench
  | build op => { b with unit := op.perform b.unit }
  | register t =>
    match b.unit.catalog.insert t with
    | .ok catalog => { b with unit := { b.unit with catalog := catalog } }
    | .error _ => b
  | draft table location id => { b with drafts := b.drafts ++ [Symbol.blank table location id] }
  | copyRow row => { b with drafts := b.drafts ++ b.unit.content.symbols[row]?.toList }
  | assignDraft index name value =>
    { b with drafts := b.drafts.modify index (·.afterAssign name value) }
  | assignRow row name value =>
    b.withContent { b.unit.content with
      symbols := b.unit.content.symbols.modify row (·.afterAssign name value) }
  | addDraft index =>
    match b.drafts[index]? with
    | some s => b.withContent ((Section.Append.add s).perform b.unit.content)
    | none => b
  | pushDraft index =>
    match b.drafts[index]? with
    | some s => b.withContent ((Section.Append.push s).perform b.unit.content)
    | none => b

def performAll (steps : List Step) (b : Workbench) : Workbench :=
  steps.foldl Step.perform b

structure Typed (b : Workbench) : Prop where
  rows : ∀ s ∈ b.unit.content.symbols, s.Typed
  drafts : ∀ s ∈ b.drafts, s.Typed

variable {b : Workbench}

theorem forall_typed_append {rows more : List Symbol} (h : ∀ s ∈ rows, s.Typed)
    (hmore : ∀ s ∈ more, s.Typed) : ∀ s ∈ rows ++ more, s.Typed := by
  intro s hs
  rcases List.mem_append.1 hs with hs | hs
  · exact h s hs
  · exact hmore s hs

theorem forall_typed_modify {rows : List Symbol} (h : ∀ s ∈ rows, s.Typed) (index : Nat)
    (name : String) (value : FieldValue) :
    ∀ s ∈ rows.modify index (·.afterAssign name value), s.Typed := by
  intro s hs
  rw [List.modify_eq_set_getElem?] at hs
  rcases hrow : rows[index]? with _ | row
  · rw [hrow] at hs
    exact h s hs
  · rw [hrow] at hs
    rcases List.mem_or_eq_of_mem_set hs with hs | rfl
    · exact h s hs
    · exact (h row (List.mem_of_getElem? hrow)).afterAssign name value

theorem forall_typed_add {c : Section} {s : Symbol} (h : ∀ t ∈ c.symbols, t.Typed)
    (hs : s.Typed) : ∀ t ∈ ((Section.Append.add s).perform c).symbols, t.Typed := by
  rcases ha : c.add s with taken | c'
  · simpa only [Section.Append.perform, ha] using h
  · simp only [Section.Append.perform, ha, Section.symbols_of_add ha]
    exact forall_typed_append h (List.forall_mem_singleton.2 hs)

theorem Typed.perform (h : b.Typed) (step : Step) : (step.perform b).Typed := by
  cases step with
  | build op =>
    obtain ⟨paths, hw⟩ := op.writes_perform_any b.unit
    obtain ⟨rows, hg, hrows⟩ := hw.content
    refine ⟨?_, h.drafts⟩
    rw [Step.perform, Section.symbols_of_grows hg]
    exact forall_typed_append h.rows fun s hs => (hrows s hs).2
  | register t =>
    simp only [Step.perform]
    split
    · exact ⟨h.rows, h.drafts⟩
    · exact h
  | draft table location id =>
    have hblank := Symbol.typed_blank table location id
    exact ⟨h.rows, forall_typed_append h.drafts (List.forall_mem_singleton.2 hblank)⟩
  | copyRow row =>
    refine ⟨h.rows, forall_typed_append h.drafts ?_⟩
    intro s hs
    exact h.rows s (List.mem_of_getElem? (Option.mem_toList.1 hs))
  | assignDraft index name value =>
    exact ⟨h.rows, forall_typed_modify h.drafts index name value⟩
  | assignRow row name value =>
    exact ⟨forall_typed_modify h.rows row name value, h.drafts⟩
  | addDraft index =>
    simp only [Step.perform]
    split
    · rename_i s hs
      have hdraft : s.Typed := h.drafts s (List.mem_of_getElem? hs)
      exact ⟨forall_typed_add h.rows hdraft, h.drafts⟩
    · exact h
  | pushDraft index =>
    simp only [Step.perform]
    split
    · rename_i s hs
      have hdraft : s.Typed := h.drafts s (List.mem_of_getElem? hs)
      exact ⟨forall_typed_append h.rows (List.forall_mem_singleton.2 hdraft), h.drafts⟩
    · exact h

theorem Typed.performAll : ∀ (steps : List Step) {b : Workbench}, b.Typed →
    (performAll steps b).Typed
  | [], _, h => h
  | step :: steps, _, h => Typed.performAll steps (h.perform step)

/-- Along every run, each row and each draft has one cell for each column of its table, with a
value of the column's kind if it is set, and an assignment to it does what its outcome says. -/
theorem typed_rows_performAll (steps : List Step) (catalog : Catalog) (platform : Platform)
    (name : String) (place : Option Location) :
    let unit : SourceUnit :=
      { catalog := catalog, platform := platform, content := { id := name, location := place } }
    let b := performAll steps { unit := unit }
    ∀ s ∈ b.unit.content.symbols ++ b.drafts,
      s.Typed ∧ ∀ field value, s.Explains field value (s.assign field value) := by
  intro unit b s hs
  have hstart : Typed { unit := unit } := ⟨by simp [unit], by simp⟩
  have hend : b.Typed := hstart.performAll steps
  have htyped : s.Typed := forall_typed_append hend.rows hend.drafts s hs
  exact ⟨htyped, htyped.explains⟩

end Workbench

end InstallerAnalysis
