import InstallerAnalysis.Proofs.Operations
import InstallerAnalysis.Proofs.SearchCycles

/-!
# The one parent of a search

`History` tells which searches and relations a run brings about: the first of each name, and for
each search the first relation that was tried for it, unless it is one to the search itself. The
rows of a section agree with the history of the run (`kept_performAll`), since they are named after
the later search and a name that is taken is refused. So in the view of the section every search has
one parent at most, with the flags of the call, and what has no order is a ring.
-/

namespace InstallerAnalysis

namespace Search

theorem Flags.ofInt_bits (f : Flags) : Flags.ofInt (f.bits.toNat : Int) = f := by
  have hlt := f.bits.toNat_lt
  rw [Flags.ofInt, if_pos ⟨by omega, by omega⟩, Int.toNat_natCast, UInt32.ofNat_toNat]

def relationRow (loc : Location) (id : Identifier) (parent : String) (flags : Flags) : Symbol :=
  ⟨Schema.SearchRelation.definition, some id, some loc,
    [some (.string parent), some (.number flags.bits.toNat)]⟩

theorem Relation.ofSymbol?_row (loc : Location) (id : Identifier) (parent : String)
    (flags : Flags) :
    ofSymbol? (relationRow loc id parent flags) = some ⟨parent, id.id, flags⟩ := by
  have hparent : (relationRow loc id parent flags).get? Schema.SearchRelation.parent
      = some parent := rfl
  have hflags : (relationRow loc id parent flags).get? Schema.SearchRelation.attributes
      = some (flags.bits.toNat : Int) := rfl
  simp only [ofSymbol?, hparent, hflags, Option.map_some, Option.getD_some, Flags.ofInt_bits]
  rfl

/-- The searches and the relations that a run has brought about, in the order of the calls. -/
structure History where
  searches : List String := []
  relations : List Relation := []

namespace History

/-- A relation counts if it is the first one of its search, and to another search. -/
def relate (h : History) (r : Relation) : History :=
  if r.parent ≠ r.child ∧ r.child ∉ h.relations.map (·.child) then
    { h with relations := h.relations ++ [r] }
  else h

/-- A search counts, and is related as it asks to be, if it is the first one of its name. -/
def declare (h : History) (e : Entry) : History :=
  if e.id.id ∈ h.searches then h
  else
    let h := { h with searches := h.searches ++ [e.id.id] }
    match e.after with
    | some earlier => h.relate ⟨earlier, e.id.id, .after⟩
    | none => h

/-- Every search has one relation at most, to another search. -/
structure Single (h : History) : Prop where
  once : (h.relations.map (·.child)).Nodup
  apart : ∀ r ∈ h.relations, r.parent ≠ r.child

variable {h : History}

theorem Single.relate (hs : h.Single) (r : Relation) : (h.relate r).Single := by
  unfold History.relate
  split_ifs with hr
  · refine ⟨?_, ?_⟩
    · rw [List.map_append, List.map_singleton]
      exact List.nodup_append.2 ⟨hs.once, List.nodup_singleton _, fun a ha b hb hab =>
        hr.2 (List.mem_singleton.1 hb ▸ hab ▸ ha)⟩
    · intro r' hr'
      rcases List.mem_append.1 hr' with hr' | hr'
      · exact hs.apart r' hr'
      · rw [List.mem_singleton.1 hr']
        exact hr.1
  · exact hs

theorem Single.declare (hs : h.Single) (e : Entry) : (h.declare e).Single := by
  unfold History.declare
  split_ifs
  · exact hs
  · have hadded : Single { h with searches := h.searches ++ [e.id.id] } := ⟨hs.once, hs.apart⟩
    rcases e.after with _ | earlier
    · exact hadded
    · exact hadded.relate _

/-- Of relations whose searches differ, those of one search are the first one. -/
theorem filter_child_eq {rs : List Relation} (hn : (rs.map (·.child)).Nodup) (id : String) :
    rs.filter (·.child = id) = (rs.find? (·.child = id)).toList := by
  induction rs with
  | nil => rfl
  | cons r rs ih =>
    rw [List.map_cons, List.nodup_cons] at hn
    by_cases hr : r.child = id
    · have hrest : rs.filter (·.child = id) = [] := by
        rw [List.filter_eq_nil_iff]
        intro r' hr' hid
        exact hn.1 (List.mem_map.2 ⟨r', hr', (of_decide_eq_true hid).trans hr.symm⟩)
      rw [List.filter_cons_of_pos (by simpa using hr), List.find?_cons_of_pos (by simpa using hr),
        hrest]
      rfl
    · rw [List.filter_cons_of_neg (by simpa using hr), List.find?_cons_of_neg (by simpa using hr)]
      exact ih hn.2

end History

/-! ## What the rows keep of a history -/

theorem search_ne_relation :
    Schema.Search.definition.name ≠ Schema.SearchRelation.definition.name := by
  decide

/-- The relations of the rows are those of the history, and the names that are taken are those of
its searches and of the later searches of its relations. -/
structure Kept (h : History) (c : Section) : Prop where
  relations : (c.rowsOf Schema.SearchRelation.definition.name).filterMap Relation.ofSymbol?
    = h.relations
  searched : ∀ id, (c.keys.lookup (Schema.Search.definition.name, id)).isSome ↔ id ∈ h.searches
  related : ∀ id, (c.keys.lookup (Schema.SearchRelation.definition.name, id)).isSome
    ↔ id ∈ h.relations.map (·.child)

namespace Kept

variable {h : History} {c c' : Section}

theorem congr (hk : Kept h c) (hrows : c'.rowsOf Schema.SearchRelation.definition.name
      = c.rowsOf Schema.SearchRelation.definition.name)
    (hsearched : ∀ id, c'.keys.lookup (Schema.Search.definition.name, id)
      = c.keys.lookup (Schema.Search.definition.name, id))
    (hrelated : ∀ id, c'.keys.lookup (Schema.SearchRelation.definition.name, id)
      = c.keys.lookup (Schema.SearchRelation.definition.name, id)) : Kept h c' := by
  refine ⟨by rw [hrows, hk.relations], fun id => ?_, fun id => ?_⟩
  · rw [hsearched, hk.searched]
  · rw [hrelated, hk.related]

theorem of_indexed (hi : c.Indexed) (hs : c.rowsOf Schema.Search.definition.name = [])
    (hr : c.rowsOf Schema.SearchRelation.definition.name = []) : Kept {} c := by
  refine ⟨by rw [hr]; rfl, fun id => ?_, fun id => ?_⟩
  · simp [hi.lookup_eq_none hs id]
  · simp [hi.lookup_eq_none hr id]

/-- Rows of other tables do not bear on it. -/
theorem grows {free : Symbol → Prop} {rows : List Symbol} (hk : Kept h c)
    (hg : c.Grows free rows c')
    (hs : c'.rowsOf Schema.Search.definition.name = c.rowsOf Schema.Search.definition.name)
    (hr : c'.rowsOf Schema.SearchRelation.definition.name
      = c.rowsOf Schema.SearchRelation.definition.name) : Kept h c' :=
  hk.congr hr (Section.lookup_of_grows hg (Section.table_ne_of_grows hg hs))
    (Section.lookup_of_grows hg (Section.table_ne_of_grows hg hr))

theorem addSearch (hk : Kept h c) (id : Identifier) {s : Symbol}
    (hs : s.table.name = Schema.Search.definition.name) :
    Kept { h with searches := h.searches ++ [id.id] }
      ((c.hold (Schema.Search.definition.name, id.id)).push s) := by
  refine ⟨?_, fun other => ?_, fun other => ?_⟩
  · have hrows : ((c.hold (Schema.Search.definition.name, id.id)).push s).rowsOf
        Schema.SearchRelation.definition.name
          = c.rowsOf Schema.SearchRelation.definition.name := by
      have hne : ¬ s.table.name = Schema.SearchRelation.definition.name := by
        rw [hs]
        exact search_ne_relation
      simp [Section.rowsOf, Section.push, Section.hold, hne]
    rw [hrows, hk.relations]
  · rw [Section.push, Section.lookup_hold, Option.isSome_or, Bool.or_eq_true, hk.searched]
    by_cases ho : other = id.id <;> simp [ho]
  · have hne : (Schema.SearchRelation.definition.name, other)
        ≠ (Schema.Search.definition.name, id.id) := by
      intro he
      exact search_ne_relation (congrArg Prod.fst he).symm
    rw [Section.push, Section.lookup_hold, if_neg hne, Option.or_none, hk.related]

theorem addRelation (hk : Kept h c) (loc : Location) (id : Identifier) (parent : String)
    (flags : Flags) :
    Kept { h with relations := h.relations ++ [⟨parent, id.id, flags⟩] }
      ((c.hold (Schema.SearchRelation.definition.name, id.id)).push
        (relationRow loc id parent flags)) := by
  refine ⟨?_, fun other => ?_, fun other => ?_⟩
  · have hrows : ((c.hold (Schema.SearchRelation.definition.name, id.id)).push
        (relationRow loc id parent flags)).rowsOf Schema.SearchRelation.definition.name
          = c.rowsOf Schema.SearchRelation.definition.name
            ++ [relationRow loc id parent flags] := by
      simp [Section.rowsOf, Section.push, Section.hold, relationRow]
    rw [hrows, List.filterMap_append, hk.relations,
      List.filterMap_cons_some (Relation.ofSymbol?_row loc id parent flags), List.filterMap_nil]
  · have hne : (Schema.Search.definition.name, other)
        ≠ (Schema.SearchRelation.definition.name, id.id) := by
      intro he
      exact search_ne_relation (congrArg Prod.fst he)
    rw [Section.push, Section.lookup_hold, if_neg hne, Option.or_none, hk.searched]
  · rw [Section.push, Section.lookup_hold, Option.isSome_or, Bool.or_eq_true, hk.related]
    by_cases ho : other = id.id <;> simp [ho]

end Kept

end Search

namespace SourceUnit

open Search

variable {h : History} {u : SourceUnit}

theorem reference_kept (hk : Kept h u.content) (loc : Location) (table : String)
    (keys : List String) : Kept h (reference loc table keys u).2.content :=
  hk.congr (reference_rowsOf (by decide) loc table keys u) (fun _ => rfl) fun _ => rfl

theorem createSearchRelation_kept (hk : Kept h u.content) (loc : Location) (id : Identifier)
    (parent : String) (flags : Flags) :
    Kept (h.relate ⟨parent, id.id, flags⟩) (createSearchRelation loc id parent flags u).2.content
      ∧ ((createSearchRelation loc id parent flags u).1
        ↔ parent ≠ id.id ∧ id.id ∉ h.relations.map (·.child)) := by
  have hfill : ∀ s : Symbol, ((s.put Schema.SearchRelation.parent parent).put
      Schema.SearchRelation.attributes (flags.bits.toNat : Int)).key? = s.key? := fun _ => rfl
  unfold createSearchRelation History.relate
  by_cases hself : id.id = parent
  · rw [if_pos hself, if_neg (fun hr => hr.1 hself.symm)]
    exact ⟨hk, nofun, fun hr => absurd hself.symm hr.1⟩
  · rw [if_neg hself]
    by_cases hheld : id.id ∈ h.relations.map (·.child)
    · obtain ⟨index, hindex⟩ := Option.isSome_iff_exists.1 ((hk.related id.id).2 hheld)
      rw [if_neg (fun hr => hr.2 hheld), createRow_held hfill hindex]
      exact ⟨hk, nofun, fun hr => absurd hheld hr.2⟩
    · have hfree := Option.not_isSome_iff_eq_none.1 (mt (hk.related id.id).1 hheld)
      rw [if_pos ⟨Ne.symm hself, hheld⟩, createRow_free hfill hfree]
      exact ⟨hk.addRelation loc id parent flags, fun _ => ⟨Ne.symm hself, hheld⟩, fun _ => rfl⟩

theorem createSearch_kept (hk : Kept h u.content) (loc : Location) (e : Entry) :
    Kept (h.declare e) (createSearch loc e u).2.content
      ∧ ((createSearch loc e u).1 ↔ e.id.id ∉ h.searches) := by
  have hfill : ∀ s, (e.fill s).key? = s.key? := fun _ => rfl
  unfold createSearch History.declare
  rw [bind_apply]
  by_cases hheld : e.id.id ∈ h.searches
  · obtain ⟨index, hindex⟩ := Option.isSome_iff_exists.1 ((hk.searched e.id.id).2 hheld)
    rw [if_pos hheld, createRow_held hfill hindex]
    exact ⟨hk, nofun, fun hn => absurd hheld hn⟩
  · have hfree := Option.not_isSome_iff_eq_none.1 (mt (hk.searched e.id.id).1 hheld)
    rw [if_neg hheld, createRow_free hfill hfree]
    have htable : (e.fill (Symbol.blank Schema.Search.definition (some loc) (some e.id))).table.name
        = Schema.Search.definition.name := rfl
    have hadded := hk.addSearch e.id htable
    rcases e.after with _ | earlier <;> rcases e.bundleExtension with _ | extension
    · exact ⟨hadded, fun _ => hheld, fun _ => rfl⟩
    · exact ⟨reference_kept hadded _ _ _, fun _ => hheld, fun _ => rfl⟩
    · refine ⟨?_, fun _ => hheld, fun _ => rfl⟩
      exact (createSearchRelation_kept (reference_kept hadded _ _ _) _ _ _ _).1
    · refine ⟨?_, fun _ => hheld, fun _ => rfl⟩
      exact reference_kept (createSearchRelation_kept (reference_kept hadded _ _ _) _ _ _ _).1 _ _ _

end SourceUnit

namespace Operation

open Search SourceUnit

def IsSearching : Operation → Prop
  | search .. | searchRelation .. => True
  | _ => False

/-- The history after an operation. -/
def follow (h : History) : Operation → History
  | search _ e => h.declare e
  | searchRelation _ id parent flags => h.relate ⟨parent, id.id, flags⟩
  | _ => h

variable {op : Operation} {u : SourceUnit} {h : History}

theorem kept_perform (hk : Kept h u.content)
    (hs : op.IsSearching ∨ (op.perform u).content.rowsOf Schema.Search.definition.name
      = u.content.rowsOf Schema.Search.definition.name)
    (hr : op.IsSearching ∨ (op.perform u).content.rowsOf Schema.SearchRelation.definition.name
      = u.content.rowsOf Schema.SearchRelation.definition.name) :
    Kept (follow h op) (op.perform u).content := by
  by_cases hop : op.IsSearching
  · cases op with
    | search loc e => exact (createSearch_kept hk loc e).1
    | searchRelation loc id parent flags =>
      exact (createSearchRelation_kept hk loc id parent flags).1
    | _ => exact hop.elim
  · have hsame : follow h op = h := by
      cases op with
      | search => exact absurd trivial hop
      | searchRelation => exact absurd trivial hop
      | _ => rfl
    obtain ⟨paths, hw⟩ := writes_perform_any op u
    obtain ⟨rows, hg, -⟩ := hw.content
    rw [hsame]
    exact hk.grows hg (hs.resolve_left hop) (hr.resolve_left hop)

theorem kept_performAll : ∀ {ops : List Operation} {u : SourceUnit} {h : History},
    Kept h u.content → RowsOnlyFrom Schema.Search.definition.name IsSearching ops u →
    RowsOnlyFrom Schema.SearchRelation.definition.name IsSearching ops u →
    Kept (ops.foldl follow h) (performAll ops u).content
  | [], _, _, hk, _, _ => hk
  | op :: ops, u, h, hk, hs, hr => by
    rw [List.foldl_cons, performAll_cons]
    exact kept_performAll (kept_perform hk hs.1 hr.1) hs.2 hr.2

theorem single_foldl : ∀ (ops : List Operation) {h : History}, h.Single →
    (ops.foldl follow h).Single
  | [], _, hh => hh
  | op :: ops, h, hh => by
    refine single_foldl ops ?_
    cases op with
    | search loc e => exact hh.declare e
    | searchRelation loc id parent flags => exact hh.relate _
    | _ => exact hh

/-- In the view of a run every search has the parent, and the flags, of the first relation that was
tried for it and is to another search, if there is one. That relation is accepted, and no other one
of the search is. Where the searches have no order, those that are reported form a ring. -/
theorem parents_performAll {ops : List Operation} (hi : u.content.Indexed)
    (hnone : u.content.rowsOf Schema.Search.definition.name = [])
    (hnone' : u.content.rowsOf Schema.SearchRelation.definition.name = [])
    (hs : RowsOnlyFrom Schema.Search.definition.name IsSearching ops u)
    (hr : RowsOnlyFrom Schema.SearchRelation.definition.name IsSearching ops u) :
    let w := performAll ops u
    let v := View.ofSection w.content
    let history : History := ops.foldl follow {}
    (∀ id, v.parents id = ((history.relations.find? (·.child = id)).map fun r =>
        (r.parent, r.flags)).toList)
      ∧ (∀ id, (v.parents id).length ≤ 1 ∧ ∀ p ∈ v.parents id, p.1 ≠ id)
      ∧ (∀ loc id parent flags, (createSearchRelation loc id parent flags w).1
        ↔ parent ≠ id.id ∧ v.parents id.id = [])
      ∧ (∀ loc e, (createSearch loc e w).1 ↔ e.id.id ∉ history.searches)
      ∧ ∀ ids, v.order = .error ids → 2 ≤ ids.length ∧ ids.Nodup
        ∧ ∃ ring : Cycle String, ring.Nodup ∧ (∀ id, id ∈ ring ↔ id ∈ ids)
          ∧ ring.Chain fun later earlier => ∃ flags, v.parents later = [(earlier, flags)] := by
  intro w v history
  have hkept : Kept history w.content := kept_performAll (.of_indexed hi hnone hnone') hs hr
  have hsingle : history.Single := single_foldl ops ⟨List.nodup_nil, by simp⟩
  have hrelations : v.relations = history.relations := hkept.relations
  have hparents : ∀ id, v.parents id = ((history.relations.find? (·.child = id)).map fun r =>
      (r.parent, r.flags)).toList := by
    intro id
    rw [View.parents, hrelations, History.filter_child_eq hsingle.once, Option.toList_map]
  have hone : ∀ id, (v.parents id).length ≤ 1 := by
    intro id
    rw [hparents]
    exact Option.length_toList_le
  have hapart : ∀ id, ∀ p ∈ v.parents id, p.1 ≠ id := by
    intro id p hp
    rw [hparents, Option.mem_toList, Option.map_eq_some_iff] at hp
    obtain ⟨r, hfound, rfl⟩ := hp
    have hchild : r.child = id := by simpa using List.find?_some hfound
    exact hchild ▸ hsingle.apart r (List.mem_of_find?_eq_some hfound)
  have hloop : ∀ x, ¬ v.Edge x x := by
    rintro x ⟨r, hrel, hparent, hchild⟩
    rw [hrelations] at hrel
    exact hsingle.apart r hrel (hparent.trans hchild.symm)
  refine ⟨hparents, fun id => ⟨hone id, hapart id⟩, ?_, ?_, ?_⟩
  · intro loc id parent flags
    rw [(createSearchRelation_kept hkept loc id parent flags).2, hparents,
      Option.toList_eq_nil_iff, Option.map_eq_none_iff, List.find?_eq_none]
    simp
  · intro loc e
    exact (createSearch_kept hkept loc e).2
  · intro ids h
    exact View.ring_of_order_error hone (View.ofSection_closed _) hloop h

section Ring

/-- Three searches in a ring, with a relation of each that comes too late, is repeated or leads to
the search itself. -/
def ringOfThree : List Operation :=
  [search ⟨"setup.xml", some 1⟩
      ⟨"FileSearch", ⟨.fragment, "First"⟩, "Found", none, some "Third", none⟩,
    directory ⟨"setup.xml", some 2⟩ (some ⟨.fragment, "First"⟩) none {},
    searchRelation ⟨"setup.xml", some 3⟩ ⟨.fragment, "Second"⟩ "Second" .none,
    searchRelation ⟨"setup.xml", some 4⟩ ⟨.fragment, "Second"⟩ "First" ⟨4294967295⟩,
    searchRelation ⟨"setup.xml", some 5⟩ ⟨.fragment, "First"⟩ "Second" .after,
    searchRelation ⟨"setup.xml", some 6⟩ ⟨.fragment, "Third"⟩ "Second" ⟨5⟩,
    search ⟨"setup.xml", some 7⟩
      ⟨"FileSearch", ⟨.fragment, "Third"⟩, "Found", none, some "First", none⟩,
    search ⟨"setup.xml", some 8⟩
      ⟨"FileSearch", ⟨.fragment, "First"⟩, "Found", none, some "Fourth", none⟩]

theorem parents_performAll_ringOfThree :
    let u : SourceUnit := { catalog := Catalog.empty, content := { id := "Setup" } }
    let v := View.ofSection (performAll ringOfThree u).content
    v.parents "Second" = [("First", ⟨4294967295⟩)]
      ∧ v.order = .error ["First", "Third", "Second"]
      ∧ ∃ ring : Cycle String, ring.Nodup
        ∧ (∀ id, id ∈ ring ↔ id ∈ ["First", "Third", "Second"])
        ∧ ring.Chain fun later earlier => ∃ flags, v.parents later = [(earlier, flags)] := by
  intro u v
  have hs : RowsOnlyFrom Schema.Search.definition.name IsSearching ringOfThree u :=
    ⟨.inl trivial, .inr rfl, .inl trivial, .inl trivial, .inl trivial, .inl trivial, .inl trivial,
      .inl trivial, trivial⟩
  have hr : RowsOnlyFrom Schema.SearchRelation.definition.name IsSearching ringOfThree u :=
    ⟨.inl trivial, .inr rfl, .inl trivial, .inl trivial, .inl trivial, .inl trivial, .inl trivial,
      .inl trivial, trivial⟩
  have hi : u.content.Indexed := by simp [u, Section.Indexed]
  obtain ⟨hparents, -, -, -, hring⟩ := parents_performAll hi rfl rfl hs hr
  have hsearches : v.searches = ["First", "Third", "Second"] := by decide
  have hgroup : v.firstGroup v.leavingOrder = ["Third", "Second", "First"] := by decide
  have horder : v.order = .error ["First", "Third", "Second"] := by
    rw [View.order, if_neg (by decide), View.cycle, hgroup, hsearches]
    cbv
  exact ⟨hparents "Second", horder, (hring _ horder).2.2⟩

end Ring

end Operation

end InstallerAnalysis
