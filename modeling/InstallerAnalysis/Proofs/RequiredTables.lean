import InstallerAnalysis.Proofs.Operations

/-!
# Tables that were asked for

Whether a table was asked for is decided by a cell of the rows, and whether its row can be added by
the index. `Required` says that both agree with the calls made so far: the rows are those of the
names in the order of their first calls, and the names that the index holds are the same. So a call
for a new name always adds its row, any other call does nothing, and none reports anything.
-/

namespace InstallerAnalysis

/-- The row of a table that was asked for. -/
def requiredRow (location : Option Location) (name : String) : Symbol :=
  ⟨Schema.EnsureTable.definition, some (Identifier.ofId name), location, [some (.string name)]⟩

/-- The section after a table was asked for the first time. -/
def Section.requiring (c : Section) (loc : Location) (name : String) : Section :=
  (c.hold (Schema.EnsureTable.definition.name, name)).push (requiredRow (some loc) name)

/-- The rows of the section are those of the names that were asked for, each with the place of the
first call for it, and the index holds these names. -/
structure Required (calls : List (String × Location)) (c : Section) : Prop where
  rows : c.rowsOf Schema.EnsureTable.definition.name
    = (calls.map (·.1)).eraseDups.map fun name => requiredRow (calls.lookup name) name
  held : ∀ name, (c.keys.lookup (Schema.EnsureTable.definition.name, name)).isSome
    ↔ name ∈ calls.map (·.1)

namespace Required

variable {calls : List (String × Location)} {c c' : Section} {name : String} {loc : Location}

theorem of_indexed (hi : c.Indexed) (hnone : c.rowsOf Schema.EnsureTable.definition.name = []) :
    Required [] c := by
  refine ⟨hnone, fun name => ?_⟩
  simp [hi.lookup_eq_none hnone name]

theorem requiresTable_iff (h : Required calls c) :
    c.requiresTable name ↔ name ∈ calls.map (·.1) := by
  have hcell : ∀ name place, (requiredRow place name).get? Schema.EnsureTable.table = some name :=
    fun _ _ => rfl
  rw [Section.requiresTable, h.rows, List.any_map, List.any_eq_true]
  simp [hcell]

theorem grows {free : Symbol → Prop} {rows : List Symbol} (h : Required calls c)
    (hg : c.Grows free rows c') (hrows : c'.rowsOf Schema.EnsureTable.definition.name
      = c.rowsOf Schema.EnsureTable.definition.name) : Required calls c' := by
  refine ⟨hrows.trans h.rows, fun name => ?_⟩
  rw [Section.lookup_of_grows hg (Section.table_ne_of_grows hg hrows), h.held]

theorem held_concat (h : Required calls c) {id : String} :
    id ∈ (calls ++ [(name, loc)]).map (·.1)
      ↔ (c.keys.lookup (Schema.EnsureTable.definition.name, id)).isSome ∨ id = name := by
  rw [h.held, List.map_append, List.mem_append]
  exact or_congr_right List.mem_singleton

/-- Later calls do not move the place of the first one. -/
theorem rows_concat (h : Required calls c) (call : String × Location) :
    c.rowsOf Schema.EnsureTable.definition.name = (calls.map (·.1)).eraseDups.map fun name =>
      requiredRow ((calls ++ [call]).lookup name) name := by
  rw [h.rows]
  refine List.map_congr_left fun name hname => ?_
  obtain ⟨first, hfirst, rfl⟩ := List.mem_map.1 (List.mem_eraseDups.1 hname)
  have hsome : (calls.lookup first.1).isSome :=
    List.lookup_isSome_iff.2 ⟨first, hfirst, beq_self_eq_true _⟩
  rw [List.lookup_append, Option.or_of_isSome hsome]

theorem repeated (h : Required calls c) (hname : name ∈ calls.map (·.1)) (loc : Location) :
    Required (calls ++ [(name, loc)]) c := by
  refine ⟨?_, fun id => ?_⟩
  · have hsame : ((calls ++ [(name, loc)]).map (·.1)).eraseDups = (calls.map (·.1)).eraseDups := by
      simp [List.eraseDups_append, List.removeAll, hname]
    rw [hsame]
    exact h.rows_concat _
  · rw [h.held_concat, h.held]
    exact ⟨.inl, fun hid => hid.elim (fun hheld => hheld) fun heq => heq ▸ hname⟩

theorem added (h : Required calls c) (hname : name ∉ calls.map (·.1)) (loc : Location) :
    Required (calls ++ [(name, loc)]) (c.requiring loc name) := by
  refine ⟨?_, fun id => ?_⟩
  · have hlast : ((calls ++ [(name, loc)]).map (·.1)).eraseDups
        = (calls.map (·.1)).eraseDups ++ [name] := by
      simp [List.eraseDups_append, List.eraseDups_cons, List.removeAll, hname]
    have hnone : calls.lookup name = none := by
      refine List.lookup_eq_none_iff.2 fun call hcall => bne_iff_ne.2 fun heq => hname ?_
      exact List.mem_map.2 ⟨call, hcall, heq.symm⟩
    have hplace : (calls ++ [(name, loc)]).lookup name = some loc := by
      simp [List.lookup_append, hnone]
    rw [hlast, List.map_append, ← h.rows_concat (name, loc), List.map_singleton, hplace]
    exact List.filter_append _ _
  · rw [h.held_concat, Section.requiring, Section.push, Section.isSome_lookup_hold]
    simp

end Required

namespace SourceUnit

variable {u : SourceUnit} {calls : List (String × Location)} {loc : Location} {table : TableRef}

theorem requireTable_known (h : u.content.requiresTable table.name) :
    requireTable loc table u = ((), u) := by
  rw [requireTable, bind_apply, get_apply]
  simp only [h]
  rfl

theorem requireTable_new (h : u.content.requiresTable table.name = false)
    (hl : u.content.keys.lookup (Schema.EnsureTable.definition.name, table.name) = none) :
    requireTable loc table u = ((), { u with content := u.content.requiring loc table.name }) := by
  have hfill : ∀ s : Symbol, (s.put Schema.EnsureTable.table table.name).key? = s.key? :=
    fun s => s.key?_put _ _
  have hl' : u.content.keys.lookup (Schema.EnsureTable.definition.name,
      (Identifier.ofId table.name).id) = none := hl
  rw [requireTable, bind_apply, get_apply]
  simp only [h]
  show (createRow loc Schema.EnsureTable.definition (some (Identifier.ofId table.name))
    (·.put Schema.EnsureTable.table table.name) >>= fun _ => pure ()) u = _
  rw [bind_apply, createRow_free hfill hl']
  rfl

/-- A call does nothing if the table was asked for, and otherwise adds its row. -/
theorem requireTable_cases (h : Required calls u.content) (loc : Location) (table : TableRef) :
    table.name ∈ calls.map (·.1) ∧ requireTable loc table u = ((), u)
      ∨ table.name ∉ calls.map (·.1) ∧ requireTable loc table u
        = ((), { u with content := u.content.requiring loc table.name }) := by
  by_cases hname : table.name ∈ calls.map (·.1)
  · exact .inl ⟨hname, requireTable_known (h.requiresTable_iff.2 hname)⟩
  · have hknown := mt h.requiresTable_iff.1 hname
    have hheld := mt (h.held table.name).1 hname
    exact .inr ⟨hname, requireTable_new (by simpa using hknown)
      (Option.not_isSome_iff_eq_none.1 hheld)⟩

end SourceUnit

namespace Operation

open SourceUnit

def IsRequiredTable : Operation → Prop
  | requiredTable .. => True
  | _ => False

/-- The table that an operation asks for, and where. -/
def tableCall? : Operation → Option (String × Location)
  | requiredTable loc table => some (table.name, loc)
  | _ => none

variable {op : Operation} {u : SourceUnit} {calls : List (String × Location)}

theorem required_perform (h : Required calls u.content)
    (hop : op.IsRequiredTable ∨ (op.perform u).content.rowsOf Schema.EnsureTable.definition.name
      = u.content.rowsOf Schema.EnsureTable.definition.name) :
    Required (calls ++ op.tableCall?.toList) (op.perform u).content := by
  by_cases hi : op.IsRequiredTable
  · cases op with
    | requiredTable loc table =>
      rw [tableCall?, Option.toList_some, perform]
      obtain ⟨hname, heq⟩ | ⟨hname, heq⟩ := requireTable_cases h loc table
      · rw [heq]
        exact h.repeated hname loc
      · rw [heq]
        exact h.added hname loc
    | _ => exact hi.elim
  · have hnone : op.tableCall? = none := by
      cases op with
      | requiredTable => exact absurd trivial hi
      | _ => rfl
    obtain ⟨paths, hw⟩ := writes_perform_any op u
    obtain ⟨rows, hg, -⟩ := hw.content
    rw [hnone, Option.toList_none, List.append_nil]
    exact h.grows hg (hop.resolve_left hi)

theorem required_performAll {ops : List Operation} (h : Required calls u.content)
    (hrun : RowsOnlyFrom Schema.EnsureTable.definition.name IsRequiredTable ops u) :
    Required (calls ++ ops.filterMap tableCall?) (performAll ops u).content :=
  hrun.keeps (P := fun calls u => Required calls u.content) required_perform h

/-- After a run, the rows are those of the tables that were asked for, one for each name, in the
order of their first calls and with the places of these; just these tables are required, and no
call for a table reports anything. -/
theorem requireTable_performAll {ops : List Operation} (hi : u.content.Indexed)
    (hnone : u.content.rowsOf Schema.EnsureTable.definition.name = [])
    (hrun : RowsOnlyFrom Schema.EnsureTable.definition.name IsRequiredTable ops u) :
    let calls := ops.filterMap tableCall?
    let v := performAll ops u
    v.content.rowsOf Schema.EnsureTable.definition.name
        = (calls.map (·.1)).eraseDups.map (fun name => requiredRow (calls.lookup name) name)
      ∧ (∀ name, v.content.requiresTable name ↔ name ∈ calls.map (·.1))
      ∧ ∀ before loc table after, ops = before ++ requiredTable loc table :: after →
        (performAll (before ++ [requiredTable loc table]) u).diagnostics
          = (performAll before u).diagnostics := by
  intro calls v
  have h : Required calls v.content := required_performAll (.of_indexed hi hnone) hrun
  refine ⟨h.rows, fun _ => h.requiresTable_iff, ?_⟩
  rintro before loc table after rfl
  have hbefore := required_performAll (.of_indexed hi hnone) (rowsOnlyFrom_append.1 hrun).1
  rw [performAll_append]
  show (requireTable loc table (performAll before u)).2.diagnostics = _
  obtain ⟨-, heq⟩ | ⟨-, heq⟩ := requireTable_cases hbefore loc table
  · rw [heq]
  · rw [heq]
    rfl

section Requests

/-- A table that is not known, asked for twice, the table of required tables, and in between a row
of another table with the name of the first. -/
def requests : List Operation :=
  [requiredTable ⟨"setup.xml", some 1⟩ (.named "Shortcut"),
    symbol ⟨"setup.xml", some 2⟩ (.given Schema.Property.definition) (some (.ofId "Shortcut")) [],
    requiredTable ⟨"setup.xml", some 3⟩ (.given Schema.EnsureTable.definition),
    requiredTable ⟨"setup.xml", some 4⟩ (.given ⟨"Shortcut", []⟩)]

theorem requireTable_performAll_requests :
    let u : SourceUnit := { catalog := Catalog.empty, content := { id := "Main" } }
    let v := performAll requests u
    v.content.rowsOf "WixEnsureTable"
        = [requiredRow (some ⟨"setup.xml", some 1⟩) "Shortcut",
          requiredRow (some ⟨"setup.xml", some 3⟩) "WixEnsureTable"]
      ∧ v.content.requiresTable "Shortcut"
      ∧ ¬ v.content.requiresTable "Property"
      ∧ v.diagnostics = (performAll (requests.take 3) u).diagnostics := by
  intro u v
  have hi : u.content.Indexed := by simp [u, Section.Indexed]
  have hrun : RowsOnlyFrom Schema.EnsureTable.definition.name IsRequiredTable requests u :=
    ⟨.inl trivial, .inr rfl, .inl trivial, .inl trivial, trivial⟩
  obtain ⟨hrows, hknown, hsilent⟩ := requireTable_performAll hi rfl hrun
  refine ⟨hrows, (hknown _).2 ?_, mt (hknown _).1 ?_, hsilent (requests.take 3) _ _ [] rfl⟩
  · decide
  · decide

end Requests

end Operation

end InstallerAnalysis
