import InstallerAnalysis.Action.Schedule
import InstallerAnalysis.Directory.Basic
import InstallerAnalysis.Grouping.Membership
import InstallerAnalysis.Registry.Entry
import InstallerAnalysis.Search.Basic
import Mathlib.Data.List.Basic

/-!
# Cells of the right kind

A row is typed if it has a cell for each column of its table and no cell holds a value of another
kind than the column. A field does not say of which table it is, so writing through it keeps a row
typed only if the table has this field at this place (`Field.In`). The rows that builders fill in
pass that test field by field; an assignment by name makes it itself (`assign_cases`).
-/

namespace InstallerAnalysis

theorem FieldValue.kind_ofCarrier {kind : FieldKind} (value : kind.Carrier) :
    (ofCarrier value).kind = kind := by
  cases kind <;> rfl

/-- The table has the field at its place, under its name and of its kind. -/
def Field.In {kind : FieldKind} (f : Field kind) (t : Table) : Prop :=
  t.columns[f.index]? = some f.column

theorem Table.columnIndex?_eq_some {t : Table} {name : String} {index : Nat}
    (h : t.columnIndex? name = some index) :
    ∃ column, t.columns[index]? = some column ∧ column.name = name
      ∧ t.columns.find? (·.name = name) = some column := by
  obtain ⟨hlt, hname, -⟩ := List.findIdx?_eq_some_iff_getElem.1 h
  refine ⟨_, List.getElem?_eq_getElem hlt, of_decide_eq_true hname, ?_⟩
  rw [List.find?_eq_bind_findIdx?_getElem?, ← columnIndex?, h]
  exact List.getElem?_eq_getElem hlt

namespace Symbol

/-- A row has a cell for each column, and what is set in it is of the column's kind. -/
structure Typed (s : Symbol) : Prop where
  length_cells : s.cells.length = s.table.columns.length
  kind_eq : ∀ index column value, s.table.columns[index]? = some column →
    s.cell? index = some value → value.kind = column.kind

def write (s : Symbol) (index : Nat) (cell : Option FieldValue) : Symbol :=
  { s with cells := s.cells.set index cell }

variable {s s' : Symbol} {index : Nat} {cell : Option FieldValue} {kind : FieldKind}

theorem cell?_write_self (h : index < s.cells.length) :
    (s.write index cell).cell? index = cell := by
  rw [cell?, write, List.getElem?_set_self h]
  rfl

theorem cell?_write_of_ne {other : Nat} (h : index ≠ other) :
    (s.write index cell).cell? other = s.cell? other := by
  rw [cell?, write, List.getElem?_set_ne h, cell?]

theorem typed_blank (table : Table) (location : Option Location) (id : Option Identifier) :
    (blank table location id).Typed := by
  refine ⟨List.length_replicate, fun index column value _ hvalue => ?_⟩
  simp only [cell?, blank, List.getElem?_replicate] at hvalue
  split_ifs at hvalue <;> cases hvalue

namespace Typed

theorem lt_length (h : s.Typed) {column : Column} (hc : s.table.columns[index]? = some column) :
    index < s.cells.length := by
  rw [h.length_cells]
  exact (List.getElem?_eq_some_iff.1 hc).1

theorem write (h : s.Typed) (hcell : ∀ column, s.table.columns[index]? = some column →
      ∀ value, cell = some value → value.kind = column.kind) : (s.write index cell).Typed := by
  refine ⟨List.length_set.trans h.length_cells, ?_⟩
  intro other column value hcolumn hvalue
  by_cases ho : index = other
  · subst ho
    rw [cell?_write_self (h.lt_length hcolumn)] at hvalue
    exact hcell column hcolumn value hvalue
  · rw [cell?_write_of_ne ho] at hvalue
    exact h.kind_eq other column value hcolumn hvalue

theorem put? (h : s.Typed) (f : Field kind) (hf : f.In s.table) (value : Option kind.Carrier) :
    (s.put? f value).Typed := by
  refine h.write fun column hcolumn stored hstored => ?_
  obtain rfl : f.column = column := Option.some.inj (hf.symm.trans hcolumn)
  obtain ⟨carried, -, rfl⟩ := Option.map_eq_some_iff.1 hstored
  exact FieldValue.kind_ofCarrier carried

theorem put (h : s.Typed) (f : Field kind) (hf : f.In s.table) (value : kind.Carrier) :
    (s.put f value).Typed :=
  h.put? f hf (some value)

end Typed

/-! ## Assignments by name -/

/-- What an assignment can come to: no column has the name, or the first one that has it is of
another kind, or the value is written there. -/
theorem assign_cases (s : Symbol) (name : String) (value : FieldValue) :
    (s.table.columns.find? (·.name = name) = none
        ∧ s.assign name value = .error (.unknownField s.table.name name))
      ∨ ∃ index column, s.table.columnIndex? name = some index
        ∧ s.table.columns[index]? = some column
        ∧ s.table.columns.find? (·.name = name) = some column
        ∧ ((column.kind = value.kind ∧ s.assign name value = .ok (s.write index (some value)))
          ∨ (column.kind ≠ value.kind ∧ s.assign name value
            = .error (.kindMismatch s.table.name name column.kind value.kind))) := by
  rcases hindex : s.table.columnIndex? name with _ | index
  · refine .inl ⟨?_, by simp only [assign, hindex]⟩
    rw [List.find?_eq_bind_findIdx?_getElem?, ← Table.columnIndex?, hindex]
    rfl
  · obtain ⟨column, hcolumn, -, hfound⟩ := Table.columnIndex?_eq_some hindex
    refine .inr ⟨index, column, rfl, hcolumn, hfound, ?_⟩
    by_cases hkind : column.kind = value.kind
    · exact .inl ⟨hkind, by simp only [assign, hindex, hcolumn, if_pos hkind]; rfl⟩
    · exact .inr ⟨hkind, by simp only [assign, hindex, hcolumn, if_neg hkind]⟩

-- of two columns of one name, the first decides
example : (blank ⟨"Setting", [⟨"Value", .number⟩, ⟨"Value", .string⟩]⟩ none none).assign "Value"
    (.string "on") = .error (.kindMismatch "Setting" "Value" .number .string) := by
  decide

theorem Typed.assign {name : String} {value : FieldValue} (h : s.Typed)
    (ha : s.assign name value = .ok s') : s'.Typed := by
  obtain ⟨-, herror⟩ | ⟨index, column, -, hcolumn, -, ⟨hkind, hok⟩ | ⟨-, herror⟩⟩ :=
    s.assign_cases name value
  · rw [herror] at ha
    cases ha
  · rw [hok] at ha
    cases ha
    refine h.write fun other hother stored hstored => ?_
    obtain rfl : column = other := Option.some.inj (hcolumn.symm.trans hother)
    cases hstored
    exact hkind.symm
  · rw [herror] at ha
    cases ha

theorem Typed.assignAll : ∀ (values : List (String × FieldValue)) {s : Symbol}, s.Typed →
    (s.assignAll values).1.Typed
  | [], _, h => h
  | (name, value) :: rest, s, h => by
    unfold Symbol.assignAll
    split
    · rename_i s' hs
      exact assignAll rest (h.assign hs)
    · exact assignAll rest h

end Symbol

/-! ## The rows of builders -/

section Builders

variable (location : Option Location) (id : Option Identifier)

theorem Registry.Entry.typed_fill (e : Registry.Entry) :
    (e.fill (Symbol.blank Schema.Registry.definition location id)).Typed :=
  Symbol.typed_blank Schema.Registry.definition location id
    |>.put Schema.Registry.root rfl _
    |>.put Schema.Registry.key rfl _
    |>.put? Schema.Registry.name rfl _
    |>.put? Schema.Registry.value rfl _
    |>.put Schema.Registry.valueType rfl _
    |>.put Schema.Registry.valueAction rfl _
    |>.put Schema.Registry.component rfl _

theorem Directory.Names.typed_fill (names : Directory.Names) (parent : Option String) :
    (names.fill parent (Symbol.blank Schema.Directory.definition location id)).Typed :=
  Symbol.typed_blank Schema.Directory.definition location id
    |>.put? Schema.Directory.parent rfl _
    |>.put? Schema.Directory.name rfl _
    |>.put? Schema.Directory.shortName rfl _
    |>.put? Schema.Directory.sourceName rfl _
    |>.put? Schema.Directory.sourceShortName rfl _

theorem Grouping.Membership.typed_fill (m : Grouping.Membership) :
    (m.fill (Symbol.blank Schema.ComplexReference.definition location id)).Typed :=
  Symbol.typed_blank Schema.ComplexReference.definition location id
    |>.put Schema.ComplexReference.parent rfl _
    |>.put Schema.ComplexReference.parentType rfl _
    |>.put? Schema.ComplexReference.parentLanguage rfl _
    |>.put Schema.ComplexReference.child rfl _
    |>.put Schema.ComplexReference.childType rfl _
    |>.put Schema.ComplexReference.isPrimary rfl _

theorem Grouping.Membership.typed_fillGroup (m : Grouping.Membership) :
    (m.fillGroup (Symbol.blank Schema.Group.definition location id)).Typed :=
  Symbol.typed_blank Schema.Group.definition location id
    |>.put Schema.Group.parent rfl _
    |>.put Schema.Group.parentType rfl _
    |>.put Schema.Group.child rfl _
    |>.put Schema.Group.childType rfl _

theorem Search.Entry.typed_fill (e : Search.Entry) :
    (e.fill (Symbol.blank Schema.Search.definition location id)).Typed :=
  Symbol.typed_blank Schema.Search.definition location id
    |>.put Schema.Search.elementName rfl _
    |>.put Schema.Search.variableName rfl _
    |>.put? Schema.Search.condition rfl _
    |>.put? Schema.Search.bundleExtension rfl _

theorem Action.Schedule.typed_fill (a : Action.Schedule) :
    (a.fill (Symbol.blank Schema.Action.definition location id)).Typed :=
  Symbol.typed_blank Schema.Action.definition location id
    |>.put Schema.Action.sequence rfl _
    |>.put Schema.Action.name rfl _
    |>.put? Schema.Action.condition rfl _
    |>.put? Schema.Action.before rfl _
    |>.put? Schema.Action.after rfl _
    |>.put Schema.Action.overridable rfl _

end Builders

end InstallerAnalysis
