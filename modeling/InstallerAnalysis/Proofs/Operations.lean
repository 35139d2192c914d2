import InstallerAnalysis.Action.Schedule
import InstallerAnalysis.Directory.Inline
import InstallerAnalysis.Grouping.Membership
import InstallerAnalysis.Proofs.CoercionReports
import InstallerAnalysis.Proofs.SectionGrowth
import InstallerAnalysis.Proofs.TypedCells
import InstallerAnalysis.Registry.Entry
import InstallerAnalysis.Search.Basic

/-!
# What builders do to a source unit

All that a builder does at a location is to add rows there whose cells are of the right kinds, to
report problems there and to remember inline directories (`Writes`); only actions are pushed.
`Writing` says that a computation remembers none, which holds of every builder but that of inline
directories; it is closed under sequencing, so each builder follows from those it is made of.
-/

namespace InstallerAnalysis

namespace Symbol

section Put

variable {kind : FieldKind} (s : Symbol) (f : Field kind)

@[simp] theorem location_put? (value : Option kind.Carrier) :
    (s.put? f value).location = s.location := rfl

@[simp] theorem location_put (value : kind.Carrier) : (s.put f value).location = s.location := rfl

@[simp] theorem key?_put? (value : Option kind.Carrier) : (s.put? f value).key? = s.key? := rfl

@[simp] theorem key?_put (value : kind.Carrier) : (s.put f value).key? = s.key? := rfl

end Put

theorem assign_eq_ok {s s' : Symbol} {name : String} {value : FieldValue}
    (h : s.assign name value = .ok s') : ∃ cells, s' = { s with cells := cells } := by
  unfold assign at h
  split at h
  · cases h
  · split at h
    · cases h
    · split_ifs at h
      cases h
      exact ⟨_, rfl⟩

/-- Assignments change cells only. -/
theorem assignAll_eq : ∀ (values : List (String × FieldValue)) (s : Symbol),
    ∃ cells, (s.assignAll values).1 = { s with cells := cells }
  | [], _ => ⟨_, rfl⟩
  | (name, value) :: rest, s => by
    unfold assignAll
    split
    · rename_i s' hs
      obtain ⟨cells, rfl⟩ := assign_eq_ok hs
      exact assignAll_eq rest _
    · exact assignAll_eq rest s

theorem assignAll_location (values : List (String × FieldValue)) (s : Symbol) :
    (s.assignAll values).1.location = s.location := by
  obtain ⟨cells, hs⟩ := assignAll_eq values s
  rw [hs]

theorem assignAll_key? (values : List (String × FieldValue)) (s : Symbol) :
    (s.assignAll values).1.key? = s.key? := by
  obtain ⟨cells, hs⟩ := assignAll_eq values s
  rw [hs]
  rfl

/-- The rows that may share an identifier. -/
def IsAction (s : Symbol) : Prop :=
  s.table = Schema.Action.definition

end Symbol

namespace SourceUnit

variable {α β : Type} {loc : Location}

/-- What builders do: from the first unit to the second, typed rows are added and problems reported
at a location, and directories are remembered. -/
structure Writes (loc : Location) (paths : List (String × String)) (u u' : SourceUnit) : Prop where
  content : ∃ rows, u.content.Grows Symbol.IsAction rows u'.content
    ∧ ∀ s ∈ rows, s.location = some loc ∧ s.Typed
  diagnostics : ∃ problems : List Problem,
    u'.diagnostics = u.diagnostics ++ problems.map (·.report loc)
  directories : u'.directories = u.directories ++ paths
  catalog : u'.catalog = u.catalog
  platform : u'.platform = u.platform

theorem Writes.refl (loc : Location) (u : SourceUnit) : Writes loc [] u u :=
  ⟨⟨[], .refl _, by simp⟩, ⟨[], by simp⟩, by simp, rfl, rfl⟩

theorem Writes.trans {paths paths' : List (String × String)} {u u' u'' : SourceUnit}
    (h : Writes loc paths u u') (h' : Writes loc paths' u' u'') :
    Writes loc (paths ++ paths') u u'' := by
  obtain ⟨⟨rows, hg, hr⟩, ⟨ps, hp⟩, hd, hc, hf⟩ := h
  obtain ⟨⟨rows', hg', hr'⟩, ⟨ps', hp'⟩, hd', hc', hf'⟩ := h'
  refine ⟨⟨rows ++ rows', hg.trans hg', ?_⟩, ⟨ps ++ ps', ?_⟩, ?_, hc'.trans hc, hf'.trans hf⟩
  · intro s hs
    rcases List.mem_append.1 hs with hs | hs
    · exact hr s hs
    · exact hr' s hs
  · rw [hp', hp, List.map_append, List.append_assoc]
  · rw [hd', hd, List.append_assoc]

/-- A computation that writes at a location and remembers no directory. -/
def Writing (loc : Location) (x : Analysis α) : Prop :=
  ∀ u, Writes loc [] u (x u).2

namespace Writing

theorem pure (a : α) : Writing loc (Pure.pure a : Analysis α) :=
  fun u => .refl loc u

theorem get : Writing loc (MonadState.get : Analysis SourceUnit) :=
  fun u => .refl loc u

theorem bind {x : Analysis α} {f : α → Analysis β} (hx : Writing loc x)
    (hf : ∀ a, Writing loc (f a)) : Writing loc (x >>= f) :=
  fun u => (hx u).trans (hf (x u).1 (x u).2)

theorem ite {p : Prop} [Decidable p] {x y : Analysis α} (hx : Writing loc x)
    (hy : Writing loc y) : Writing loc (if p then x else y) := by
  split_ifs
  · exact hx
  · exact hy

theorem forM {x : β → Analysis Unit} (hx : ∀ b, Writing loc (x b)) :
    ∀ bs : List β, Writing loc (bs.forM x)
  | [] => .pure ()
  | b :: bs => .bind (hx b) fun _ => forM hx bs

theorem of_yields {x : Analysis α} {value : α} {problems : List Problem}
    (h : Yields loc x value problems) : Writing loc x := by
  intro u
  rw [h u]
  refine ⟨⟨[], .refl _, by simp⟩, ⟨problems, diagnostics_withReports _ _⟩, ?_,
    catalog_withReports _ _, platform_withReports _ _⟩
  rw [directories_withReports, List.append_nil]

theorem report (p : Problem) (loc : Location) : Writing loc (SourceUnit.report p loc) :=
  of_yields (.report p)

theorem readAttribute {c : Coercion α} {a : Attribute} {standIn : α} (h : c.Ends a standIn)
    (loc : Location) : Writing loc (SourceUnit.readAttribute c loc a) := by
  obtain ⟨value, odd, h⟩ | ⟨fault, h⟩ := h
  · exact of_yields (h loc)
  · exact of_yields (h loc)

end Writing

/-- A computation that writes at a location, and may remember directories. -/
def Remembering (loc : Location) (x : Analysis α) : Prop :=
  ∀ u, ∃ paths, Writes loc paths u (x u).2

theorem Writing.remembering {x : Analysis α} (h : Writing loc x) : Remembering loc x :=
  fun u => ⟨[], h u⟩

theorem Remembering.bind {x : Analysis α} {f : α → Analysis β} (hx : Remembering loc x)
    (hf : ∀ a, Remembering loc (f a)) : Remembering loc (x >>= f) := by
  intro u
  obtain ⟨paths, h⟩ := hx u
  obtain ⟨paths', h'⟩ := hf (x u).1 (x u).2
  exact ⟨paths ++ paths', h.trans h'⟩

/-! ## Rows -/

section Rows

variable {table : TableRef} {id : Option Identifier} {fill : Symbol → Symbol × α} {u : SourceUnit}

theorem createWith_unknown {fault : SchemaFault} (h : u.catalog.lookupRef table = .error fault) :
    createWith loc table id fill u = (none, (report (.unknownTable table.name) loc u).2) := by
  simp only [createWith, bind_apply, get_apply, h]
  rfl

theorem createWith_taken {definition : Table} {taken : Section.Duplicate}
    (h : u.catalog.lookupRef table = .ok definition)
    (ha : u.content.add (fill (Symbol.blank definition (some loc) id)).1 = .error taken) :
    createWith loc table id fill u
      = (none, (report (.duplicateSymbol taken.table taken.id taken.first) loc u).2) := by
  simp only [createWith, bind_apply, get_apply, h, ha]
  rfl

theorem createWith_added {definition : Table} {content : Section}
    (h : u.catalog.lookupRef table = .ok definition)
    (ha : u.content.add (fill (Symbol.blank definition (some loc) id)).1 = .ok content) :
    createWith loc table id fill u = (some (fill (Symbol.blank definition (some loc) id)).2,
      { u with content := content }) := by
  simp only [createWith, bind_apply, get_apply, h, ha]
  rfl

section Named

variable {table : Table} {id : Identifier} {fill : Symbol → Symbol}

theorem createRow_free (hfill : ∀ s, (fill s).key? = s.key?)
    (hl : u.content.keys.lookup (table.name, id.id) = none) :
    createRow loc table (some id) fill u = (true, { u with
      content := (u.content.hold (table.name, id.id)).push
        (fill (Symbol.blank table (some loc) (some id))) }) := by
  have hkey : (fill (Symbol.blank table (some loc) (some id))).key? = some (table.name, id.id) :=
    hfill _
  have ha : u.content.add (fill (Symbol.blank table (some loc) (some id)))
      = .ok ((u.content.hold (table.name, id.id)).push
        (fill (Symbol.blank table (some loc) (some id)))) := by
    simp only [Section.add, hkey, hl]
  rw [createRow, bind_apply, createWith_added rfl ha]
  rfl

theorem createRow_held {index : Nat} (hfill : ∀ s, (fill s).key? = s.key?)
    (hl : u.content.keys.lookup (table.name, id.id) = some index) :
    createRow loc table (some id) fill u = (false, (report (.duplicateSymbol table.name id.id
      (u.content.symbols[index]?.bind (·.location))) loc u).2) := by
  have hkey : (fill (Symbol.blank table (some loc) (some id))).key? = some (table.name, id.id) :=
    hfill _
  have ha : u.content.add (fill (Symbol.blank table (some loc) (some id)))
      = .error ⟨table.name, id.id, u.content.symbols[index]?.bind (·.location)⟩ := by
    simp only [Section.add, hkey, hl]
  rw [createRow, bind_apply, createWith_taken rfl ha]
  rfl

end Named

theorem writing_createWith (hfill : ∀ s, (fill s).1.location = s.location)
    (htyped : ∀ (catalog : Catalog) definition, catalog.lookupRef table = .ok definition →
      (fill (Symbol.blank definition (some loc) id)).1.Typed) :
    Writing loc (createWith loc table id fill) := by
  intro u
  rcases h : u.catalog.lookupRef table with fault | definition
  · rw [createWith_unknown h]
    exact Writing.report _ loc u
  · rcases ha : u.content.add (fill (Symbol.blank definition (some loc) id)).1
      with taken | content
    · rw [createWith_taken h ha]
      exact Writing.report _ loc u
    · rw [createWith_added h ha]
      refine ⟨⟨[_], .add ha (.refl _), ?_⟩, ⟨[], (List.append_nil _).symm⟩, by simp, rfl, rfl⟩
      intro s hs
      rw [List.mem_singleton.1 hs, hfill]
      exact ⟨rfl, htyped u.catalog definition h⟩

theorem writing_createRow {table : Table} {fill : Symbol → Symbol}
    (hfill : ∀ s, (fill s).location = s.location)
    (htyped : (fill (Symbol.blank table (some loc) id)).Typed) :
    Writing loc (createRow loc table id fill) := by
  refine .bind (writing_createWith hfill fun catalog definition hdefinition => ?_) fun _ => .pure _
  cases hdefinition
  exact htyped

theorem writing_pushRow (a : Action.Schedule) :
    Writing loc (pushRow loc Schema.Action.definition id a.fill) := by
  intro u
  have haction : (a.fill (Symbol.blank Schema.Action.definition (some loc) id)).IsAction := rfl
  refine ⟨⟨[_], .push haction (.refl _), ?_⟩, ⟨[], (List.append_nil _).symm⟩,
    (List.append_nil _).symm, rfl, rfl⟩
  intro s hs
  rw [List.mem_singleton.1 hs]
  exact ⟨rfl, a.typed_fill _ _⟩

end Rows

/-! ## Builders -/

theorem writing_requireTable (table : TableRef) : Writing loc (requireTable loc table) := by
  refine .bind .get fun u => ?_
  split_ifs
  · exact .pure _
  · have htyped := (Symbol.typed_blank Schema.EnsureTable.definition (some loc)
      (some (Identifier.ofId table.name))).put Schema.EnsureTable.table rfl table.name
    exact .bind (writing_createRow (fun _ => rfl) htyped) fun _ => .pure _

theorem writing_reference (table : String) (keys : List String) :
    Writing loc (reference loc table keys) := by
  have htyped := ((Symbol.typed_blank Schema.SimpleReference.definition (some loc) none).put
    Schema.SimpleReference.table rfl table).put Schema.SimpleReference.primaryKeys rfl
      (String.intercalate "/" keys)
  exact .bind (writing_createRow (fun _ => rfl) htyped) fun _ => .pure _

/-- The row of a reference. -/
def referenceRow (loc : Location) (table : String) (keys : List String) : Symbol :=
  ⟨Schema.SimpleReference.definition, none, some loc,
    [some (.string table), some (.string (String.intercalate "/" keys))]⟩

/-- A reference is never refused. -/
theorem reference_eq (loc : Location) (table : String) (keys : List String) (u : SourceUnit) :
    reference loc table keys u
      = ((), { u with content := u.content.push (referenceRow loc table keys) }) := rfl

theorem reference_rowsOf {other : String} (h : Schema.SimpleReference.definition.name ≠ other)
    (loc : Location) (table : String) (keys : List String) (u : SourceUnit) :
    (reference loc table keys u).2.content.rowsOf other = u.content.rowsOf other := by
  rw [reference_eq, Section.rowsOf, Section.rowsOf, Section.push, List.filter_append]
  simp [referenceRow, h]

theorem writing_referenceCustomAction (name : String) (platform : Platform)
    (supported : PlatformSet) :
    Writing loc (referenceCustomAction loc name platform supported) := by
  unfold referenceCustomAction
  split
  · exact .pure _
  · exact .bind (writing_reference _ _) fun _ => .pure _

theorem writing_createRegistryValue (e : Registry.Entry) :
    Writing loc (createRegistryValue loc e) := by
  unfold createRegistryValue
  refine .ite (.bind (.report _ loc) fun _ => .pure _) ?_
  exact .bind (writing_createRow (fun _ => by simp [Registry.Entry.fill]) (e.typed_fill _ _))
    fun _ => .ite (.pure _) (.pure _)

theorem writing_createDirectory (id : Option Identifier) (parent : Option String)
    (names : Directory.Names) : Writing loc (createDirectory loc id parent names) :=
  .bind (writing_createRow (fun _ => rfl) (Directory.Names.typed_fill _ _ _ parent)) fun _ =>
    .pure _

theorem writing_createGroupRow (m : Grouping.Membership) : Writing loc (createGroupRow loc m) := by
  unfold createGroupRow
  exact .ite (.bind (writing_createRow (fun _ => rfl) (m.typed_fillGroup _ _)) fun _ => .pure _)
    (.pure _)

theorem writing_createMembership (m : Grouping.Membership) :
    Writing loc (createMembership loc m) :=
  .bind (writing_createRow (fun _ => by simp [Grouping.Membership.fill]) (m.typed_fill _ _))
    fun _ => writing_createGroupRow m

theorem writing_createSearchRelation (id : Identifier) (parent : String) (flags : Search.Flags) :
    Writing loc (createSearchRelation loc id parent flags) := by
  have htyped := ((Symbol.typed_blank Schema.SearchRelation.definition (some loc) (some id)).put
    Schema.SearchRelation.parent rfl parent).put Schema.SearchRelation.attributes rfl
      (flags.bits.toNat : Int)
  unfold createSearchRelation
  exact .ite (.bind (.report _ loc) fun _ => .pure _) (writing_createRow (fun _ => rfl) htyped)

theorem writing_createSearch (e : Search.Entry) : Writing loc (createSearch loc e) := by
  refine .bind (writing_createRow (fun _ => rfl) (e.typed_fill _ _)) fun added =>
    .ite ?_ (.pure _)
  rcases e.after with _ | earlier <;> rcases e.bundleExtension with _ | extension
  · exact .pure _
  · exact .bind (writing_reference _ _) fun _ => .pure _
  · exact .bind (writing_reference _ _) fun _ =>
      .bind (writing_createSearchRelation _ _ _) fun _ => .pure _
  · exact .bind (writing_reference _ _) fun _ => .bind (writing_createSearchRelation _ _ _) fun _ =>
      .bind (writing_reference _ _) fun _ => .pure _

theorem writing_referenceAction (sequence : Sequence) (target : String) :
    Writing loc (referenceAction loc sequence target) :=
  .ite (writing_reference _ _) (writing_reference _ _)

theorem writing_placeAction (a : Action.Schedule) : Writing loc (placeAction loc a) := by
  refine .bind .get fun u => ?_
  rcases a.earlier u.content with _ | ⟨s, rows⟩
  · exact writing_createRow (fun _ => by simp [Action.Schedule.fill]) (a.typed_fill _ _)
  · dsimp only
    rcases List.find? _ (s :: rows) with _ | first
    · exact .bind (writing_pushRow a) fun _ => .pure _
    · exact .bind (.report _ loc) fun _ => .pure _

theorem writing_addAction (a : Action.Schedule) : Writing loc (addAction loc a) :=
  .bind (writing_placeAction a) fun _ =>
    .ite (.bind (.forM (writing_referenceAction a.sequence) _) fun _ => .pure _) (.pure _)

theorem writes_rememberDirectory (loc : Location) (key id : String) (u : SourceUnit) :
    Writes loc [(key, id)] u (rememberDirectory key id u).2 :=
  ⟨⟨[], .refl _, by simp⟩, ⟨[], (List.append_nil _).symm⟩, rfl, rfl, rfl⟩

theorem remembering_rememberDirectory (key id : String) :
    Remembering loc (rememberDirectory key id) :=
  fun u => ⟨_, writes_rememberDirectory loc key id u⟩

theorem remembering_enterRoot (path : Directory.InlinePath) :
    Remembering loc (enterRoot loc path) := by
  refine .bind Writing.get.remembering fun u => ?_
  split_ifs
  · exact .bind (writing_reference _ _).remembering fun _ => remembering_rememberDirectory _ _
  · exact (Writing.pure _).remembering

theorem remembering_descend (illegal : String → Problem) : ∀ (names : List String)
    (key current : String), Remembering loc (descend loc illegal key current names)
  | [], _, _ => (Writing.pure _).remembering
  | name :: names, key, current => by
    refine .bind Writing.get.remembering fun u => ?_
    split
    · exact remembering_descend illegal names _ _
    · split_ifs
      · refine .bind (writing_createDirectory _ _ _).remembering fun _ => ?_
        exact .bind (remembering_rememberDirectory _ _) fun _ =>
          remembering_descend illegal names _ _
      · exact (Writing.bind (.report _ loc) fun _ => .pure _).remembering

theorem writing_inlineText (a : Option Attribute) (given : String) :
    Writing loc (inlineText loc a given) := by
  unfold inlineText
  refine .ite ?_ (.pure _)
  rcases a with _ | a
  · exact .pure _
  · exact .bind (.readAttribute (Coercion.ends_text .refuseBlank a) loc) fun _ => .pure _

theorem remembering_resolveInline (a : Option Attribute) (parent : Option String)
    (given : String) : Remembering loc (resolveInline loc a parent given) := by
  refine .bind (writing_inlineText a given).remembering fun text? => ?_
  rcases text? with _ | text
  · exact (Writing.pure _).remembering
  · dsimp only
    split
    · exact (Writing.bind (.report _ loc) fun _ => .pure _).remembering
    · exact .bind (remembering_enterRoot _) fun _ => remembering_descend _ _ _ _

end SourceUnit

/-! ## Runs -/

/-- What a source has a unit do: one call of a builder. -/
inductive Operation where
  | symbol (loc : Location) (table : TableRef) (id : Option Identifier)
      (values : List (String × FieldValue))
  | requiredTable (loc : Location) (table : TableRef)
  | registryValue (loc : Location) (e : Registry.Entry)
  | directory (loc : Location) (id : Option Identifier) (parent : Option String)
      (names : Directory.Names)
  | inlineDirectory (loc : Location) (a : Option Attribute) (parent : Option String)
      (given : String)
  | reference (loc : Location) (table : String) (keys : List String)
  | customActionReference (loc : Location) (name : String) (platform : Platform)
      (supported : PlatformSet)
  | membership (loc : Location) (m : Grouping.Membership)
  | group (loc : Location) (m : Grouping.Membership)
  | search (loc : Location) (e : Search.Entry)
  | searchRelation (loc : Location) (id : Identifier) (parent : String) (flags : Search.Flags)
  | action (loc : Location) (a : Action.Schedule)

namespace Operation

open SourceUnit

def location : Operation → Location
  | symbol loc .. | requiredTable loc .. | registryValue loc .. | directory loc ..
  | inlineDirectory loc .. | reference loc .. | customActionReference loc .. | membership loc ..
  | group loc .. | search loc .. | searchRelation loc .. | action loc .. => loc

/-- The unit after an operation. -/
def perform : Operation → SourceUnit → SourceUnit
  | symbol loc table id values, u => (createWith loc table id (·.assignAll values) u).2
  | requiredTable loc table, u => (requireTable loc table u).2
  | registryValue loc e, u => (createRegistryValue loc e u).2
  | directory loc id parent names, u => (createDirectory loc id parent names u).2
  | inlineDirectory loc a parent given, u => (resolveInline loc a parent given u).2
  | reference loc table keys, u => (SourceUnit.reference loc table keys u).2
  | customActionReference loc name platform supported, u =>
    (referenceCustomAction loc name platform supported u).2
  | membership loc m, u => (createMembership loc m u).2
  | group loc m, u => (createGroupRow loc m u).2
  | search loc e, u => (createSearch loc e u).2
  | searchRelation loc id parent flags, u => (createSearchRelation loc id parent flags u).2
  | action loc a, u => (addAction loc a u).2

def IsInline : Operation → Prop
  | inlineDirectory .. => True
  | _ => False

/-- Only inline directories are remembered. -/
theorem writes_perform {op : Operation} (h : ¬ op.IsInline) (u : SourceUnit) :
    Writes op.location [] u (op.perform u) := by
  cases op with
  | symbol loc table id values =>
    exact writing_createWith (fun s => Symbol.assignAll_location values s)
      (fun _ _ _ => Symbol.Typed.assignAll values (Symbol.typed_blank _ _ _)) u
  | requiredTable loc table => exact writing_requireTable table u
  | registryValue loc e => exact writing_createRegistryValue e u
  | directory loc id parent names => exact writing_createDirectory id parent names u
  | inlineDirectory => exact absurd trivial h
  | reference loc table keys => exact writing_reference table keys u
  | customActionReference loc name platform supported =>
    exact writing_referenceCustomAction name platform supported u
  | membership loc m => exact writing_createMembership m u
  | group loc m => exact writing_createGroupRow m u
  | search loc e => exact writing_createSearch e u
  | searchRelation loc id parent flags => exact writing_createSearchRelation id parent flags u
  | action loc a => exact writing_addAction a u

theorem writes_perform_any (op : Operation) (u : SourceUnit) :
    ∃ paths, Writes op.location paths u (op.perform u) := by
  by_cases h : op.IsInline
  · cases op with
    | inlineDirectory loc a parent given => exact remembering_resolveInline a parent given u
    | _ => exact h.elim
  · exact ⟨[], writes_perform h u⟩

/-- The unit after one operation after the other. -/
def performAll (ops : List Operation) (u : SourceUnit) : SourceUnit :=
  ops.foldl (fun u op => op.perform u) u

@[simp] theorem performAll_nil (u : SourceUnit) : performAll [] u = u := rfl

@[simp] theorem performAll_cons (op : Operation) (ops : List Operation) (u : SourceUnit) :
    performAll (op :: ops) u = performAll ops (op.perform u) := rfl

theorem performAll_append (ops ops' : List Operation) (u : SourceUnit) :
    performAll (ops ++ ops') u = performAll ops' (performAll ops u) :=
  List.foldl_append

/-- Along a run, only operations of a kind add rows of a table. -/
def RowsOnlyFrom (table : String) (kind : Operation → Prop) : List Operation → SourceUnit → Prop
  | [], _ => True
  | op :: ops, u =>
    (kind op ∨ (op.perform u).content.rowsOf table = u.content.rowsOf table)
      ∧ RowsOnlyFrom table kind ops (op.perform u)

theorem rowsOnlyFrom_append {table : String} {kind : Operation → Prop} {ops' : List Operation} :
    ∀ {ops : List Operation} {u : SourceUnit}, RowsOnlyFrom table kind (ops ++ ops') u
      ↔ RowsOnlyFrom table kind ops u ∧ RowsOnlyFrom table kind ops' (performAll ops u)
  | [], u => by simp [RowsOnlyFrom]
  | op :: ops, u => by
    rw [List.cons_append, RowsOnlyFrom, RowsOnlyFrom, rowsOnlyFrom_append, and_assoc,
      performAll_cons]

/-- What every operation keeps of the calls made so far, a run keeps of all its calls. -/
theorem RowsOnlyFrom.keeps {table : String} {kind : Operation → Prop} {β : Type}
    {call? : Operation → Option β} {P : List β → SourceUnit → Prop}
    (hstep : ∀ {op u calls}, P calls u →
      kind op ∨ (op.perform u).content.rowsOf table = u.content.rowsOf table →
      P (calls ++ (call? op).toList) (op.perform u)) :
    ∀ {ops : List Operation} {u : SourceUnit} {calls : List β}, P calls u →
      RowsOnlyFrom table kind ops u → P (calls ++ ops.filterMap call?) (performAll ops u)
  | [], _, calls, h, _ => by rwa [List.filterMap_nil, List.append_nil]
  | op :: ops, u, calls, h, hrun => by
    have hcalls : (op :: ops).filterMap call? = (call? op).toList ++ ops.filterMap call? := by
      rw [List.filterMap_cons]
      rcases call? op with _ | call <;> rfl
    rw [hcalls, ← List.append_assoc, performAll_cons]
    exact RowsOnlyFrom.keeps hstep (hstep h hrun.1) hrun.2

theorem directories_prefix_performAll : ∀ (ops : List Operation) (u : SourceUnit),
    u.directories <+: (performAll ops u).directories
  | [], u => List.prefix_rfl
  | op :: ops, u => by
    obtain ⟨paths, h⟩ := writes_perform_any op u
    have hop : u.directories <+: (op.perform u).directories := ⟨paths, h.directories.symm⟩
    exact hop.trans (directories_prefix_performAll ops (op.perform u))

end Operation

end InstallerAnalysis
