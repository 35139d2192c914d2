import InstallerAnalysis.Grouping.View
import InstallerAnalysis.Proofs.Operations

/-!
# Memberships are read back as they were made

The row of a membership tells all of it (`ofSymbol?_row`), so a section whose rows of that table
come from memberships lists them in the order of the calls (`recorded_performAll`). The view keeps
the positions of nodes while it grows, so that its edges lead from each parent to its children and
nowhere else (`Shows.children_eq`), also where one identifier is that of a parent and of a child.
-/

namespace InstallerAnalysis

namespace Grouping

theorem ParentType.ofCode?_code (t : ParentType) : ofCode? t.code = some t := by
  cases t <;> rfl

theorem ChildType.ofCode?_code (t : ChildType) : ofCode? t.code = some t := by
  cases t <;> rfl

namespace Membership

def owner (m : Membership) : ParentType × String :=
  (m.parentType, m.parent)

/-- The child as its parent should have it. -/
def member (m : Membership) : Member :=
  ⟨m.child, m.childType, m.isPrimary, m.parentLanguage⟩

def row (loc : Location) (m : Membership) : Symbol :=
  ⟨Schema.ComplexReference.definition, none, some loc,
    [some (.string m.parent), some (.number m.parentType.code), m.parentLanguage.map .string,
      some (.string m.child), some (.number m.childType.code), some (.bool m.isPrimary)]⟩

def groupRow (loc : Location) (m : Membership) : Symbol :=
  ⟨Schema.Group.definition, none, some loc,
    [some (.string m.parent), some (.number m.parentType.code), some (.string m.child),
      some (.number m.childType.code)]⟩

theorem hasGroup_iff (m : Membership) :
    m.hasGroup ↔ m.parentType ≠ .unknown ∧ m.parent ≠ "" := by
  simp [hasGroup]

theorem ofSymbol?_row (m : Membership) (loc : Location) : ofSymbol? (m.row loc) = some m := by
  have hparent : (m.row loc).get? Schema.ComplexReference.parentType = some m.parentType.code := rfl
  have hchild : (m.row loc).get? Schema.ComplexReference.childType = some m.childType.code := rfl
  have hlanguage : (m.row loc).get? Schema.ComplexReference.parentLanguage = m.parentLanguage := by
    rcases m with ⟨_, _, _, _, _ | language, _⟩ <;> rfl
  simp only [ofSymbol?, hparent, hchild, hlanguage, Option.bind_some, ParentType.ofCode?_code,
    ChildType.ofCode?_code]
  rfl

def ownerNode (m : Membership) : Node :=
  .parent m.parentType m.parent

def childNode (m : Membership) : Node :=
  .child m.childType m.child

theorem ownerNode_eq_iff (m : Membership) (owner : ParentType × String) :
    m.ownerNode = .parent owner.1 owner.2 ↔ m.owner = owner := by
  rw [ownerNode, Node.parent.injEq, Membership.owner, Prod.ext_iff]

end Membership

/-! ## The graph -/

namespace View

/-- The edge of a membership whose parent and child have their places in the view. -/
def edgeOf (v : View) (m : Membership) : Edge :=
  ⟨v.nodes.idxOf m.ownerNode, v.nodes.idxOf m.childNode, m.childType, m.isPrimary,
    m.parentLanguage⟩

/-- The edges are those of the memberships, in their order. -/
structure Shows (v : View) (ms : List Membership) : Prop where
  owner_mem : ∀ m ∈ ms, m.ownerNode ∈ v.nodes
  child_mem : ∀ m ∈ ms, m.childNode ∈ v.nodes
  edges : v.edges = ms.map v.edgeOf

variable {v : View} {ms : List Membership}

theorem intern_eq (v : View) (n : Node) : ∃ more, n ∈ v.nodes ++ more
    ∧ v.intern n = ((v.nodes ++ more).idxOf n, { v with nodes := v.nodes ++ more }) := by
  have hindex := v.nodes.idxOf_eq_getD_idxOf? n
  unfold intern
  rcases hfound : v.nodes.idxOf? n with _ | index <;> rw [hfound] at hindex
  · refine ⟨[n], by simp, ?_⟩
    rw [List.idxOf?_eq_none_iff] at hfound
    rw [List.idxOf_append_of_notMem hfound, List.idxOf_cons_self, Nat.add_zero]
  · obtain ⟨hlt, rfl, -⟩ := List.idxOf?_eq_some_iff.1 hfound
    refine ⟨[], by simp, ?_⟩
    rw [List.append_nil, hindex]
    rfl

theorem connect_eq (v : View) (m : Membership) : ∃ more,
    m.ownerNode ∈ v.nodes ++ more ∧ m.childNode ∈ v.nodes ++ more
      ∧ v.connect m = { nodes := v.nodes ++ more
                        edges := v.edges ++ [edgeOf { v with nodes := v.nodes ++ more } m] } := by
  obtain ⟨more, howner, hintern⟩ := v.intern_eq m.ownerNode
  obtain ⟨more', hchild, hintern'⟩ := intern_eq { v with nodes := v.nodes ++ more } m.childNode
  simp only [List.append_assoc] at hchild hintern'
  refine ⟨more ++ more', ?_, hchild, ?_⟩
  · rw [← List.append_assoc]
    exact List.mem_append_left _ howner
  · have hsource : (v.nodes ++ (more ++ more')).idxOf m.ownerNode
        = (v.nodes ++ more).idxOf m.ownerNode := by
      rw [← List.append_assoc, List.idxOf_append_of_mem howner]
    rw [Membership.ownerNode] at hintern
    rw [Membership.childNode] at hintern'
    simp only [connect, hintern, hintern', edgeOf, hsource]
    rfl

theorem Shows.connect (h : v.Shows ms) (m : Membership) : (v.connect m).Shows (ms ++ [m]) := by
  obtain ⟨more, howner, hchild, heq⟩ := v.connect_eq m
  rw [heq]
  refine ⟨?_, ?_, ?_⟩
  · intro m' hm'
    rcases List.mem_append.1 hm' with hm' | hm'
    · exact List.mem_append_left _ (h.owner_mem m' hm')
    · rwa [List.mem_singleton.1 hm']
  · intro m' hm'
    rcases List.mem_append.1 hm' with hm' | hm'
    · exact List.mem_append_left _ (h.child_mem m' hm')
    · rwa [List.mem_singleton.1 hm']
  · -- nodes that are added later do not move the earlier ones
    have hkept : ∀ m' ∈ ms, v.edgeOf m' = edgeOf { v with nodes := v.nodes ++ more } m' := by
      intro m' hm'
      simp only [edgeOf, List.idxOf_append_of_mem (h.owner_mem m' hm'),
        List.idxOf_append_of_mem (h.child_mem m' hm')]
    rw [h.edges, List.map_congr_left hkept, List.map_append]
    rfl

theorem Shows.foldl_connect : ∀ (later : List Membership) {v : View} {ms : List Membership},
    v.Shows ms → (later.foldl View.connect v).Shows (ms ++ later)
  | [], v, ms, h => by rwa [List.append_nil]
  | m :: later, v, ms, h => by
    rw [List.append_cons]
    exact foldl_connect later (h.connect m)

theorem Shows.member?_edgeOf (h : v.Shows ms) {m : Membership} (hm : m ∈ ms) :
    v.member? (v.edgeOf m) = some m.member := by
  have hchild : v.nodes[(v.edgeOf m).target]? = some (.child m.childType m.child) :=
    List.getElem?_idxOf (h.child_mem m hm)
  simp only [member?, hchild]
  rfl

theorem children_of_not_mem {owner : ParentType × String}
    (h : Node.parent owner.1 owner.2 ∉ v.nodes) : v.children owner = [] := by
  rw [children, List.idxOf?_eq_none_iff.2 h]

theorem children_of_mem {owner : ParentType × String}
    (h : Node.parent owner.1 owner.2 ∈ v.nodes) : v.children owner
      = (v.edges.filter (·.source = v.nodes.idxOf (.parent owner.1 owner.2))).filterMap
        v.member? := by
  have hindex := v.nodes.idxOf_eq_getD_idxOf? (.parent owner.1 owner.2)
  rcases hfound : v.nodes.idxOf? (.parent owner.1 owner.2) with _ | source
  · exact absurd h (List.idxOf?_eq_none_iff.1 hfound)
  · rw [hfound, Option.getD_some] at hindex
    rw [children, hfound, hindex]

theorem Shows.children_eq (h : v.Shows ms) (owner : ParentType × String) :
    v.children owner = (ms.filter (·.owner = owner)).map (·.member) := by
  by_cases hmem : Node.parent owner.1 owner.2 ∈ v.nodes
  · have hsame : ∀ m ∈ ms,
        decide ((v.edgeOf m).source = v.nodes.idxOf (.parent owner.1 owner.2))
          = decide (m.owner = owner) := by
      intro m hm
      rw [decide_eq_decide, ← m.ownerNode_eq_iff]
      exact List.idxOf_inj (h.owner_mem m hm)
    have hmembers : ∀ m ∈ ms.filter (·.owner = owner), v.member? (v.edgeOf m) = some m.member :=
      fun m hm => h.member?_edgeOf (List.mem_of_mem_filter hm)
    calc v.children owner
        = (ms.filter (·.owner = owner)).filterMap fun m => v.member? (v.edgeOf m) := by
          rw [children_of_mem hmem, h.edges, List.filter_map, List.filterMap_map]
          exact congrArg _ (List.filter_congr hsame)
      _ = (ms.filter (·.owner = owner)).map (·.member) := by
          rw [List.filterMap_congr hmembers]
          exact congrFun List.filterMap_eq_map _
  · rw [children_of_not_mem hmem, eq_comm, List.map_eq_nil_iff, List.filter_eq_nil_iff]
    intro m hm howner
    rw [decide_eq_true_iff, ← m.ownerNode_eq_iff] at howner
    exact hmem (howner ▸ h.owner_mem m hm)

theorem Shows.firstPrimary?_eq (h : v.Shows ms) (owner : ParentType × String) (kind : ChildType) :
    v.firstPrimary? owner kind
      = (ms.find? fun m => m.owner = owner ∧ m.childType = kind ∧ m.isPrimary).map (·.child) := by
  rw [firstPrimary?, h.children_eq, List.find?_map, List.find?_filter, Option.map_map]
  simp [Function.comp_def, Membership.member]

end View

end Grouping

/-! ## Runs -/

/-- The memberships that the rows of a section record. -/
def Section.recorded (c : Section) : List Grouping.Membership :=
  (c.rowsOf Schema.ComplexReference.definition.name).filterMap Grouping.Membership.ofSymbol?

theorem Grouping.View.shows_ofSection (c : Section) : (View.ofSection c).Shows c.recorded := by
  have hstart : Shows {} [] := ⟨by simp, by simp, rfl⟩
  exact Shows.foldl_connect c.recorded hstart

namespace SourceUnit

/-- The rows of a membership: its own, and that of the group if the parent is known. -/
def membershipRows (loc : Location) (m : Grouping.Membership) : List Symbol :=
  if m.parentType ≠ .unknown ∧ m.parent ≠ "" then [m.row loc, m.groupRow loc] else [m.row loc]

theorem createMembership_eq (loc : Location) (m : Grouping.Membership) (u : SourceUnit) :
    createMembership loc m u = ((), { u with content :=
      { u.content with symbols := u.content.symbols ++ membershipRows loc m } }) := by
  have hrow : createMembership loc m u
      = createGroupRow loc m { u with content := u.content.push (m.row loc) } := rfl
  rw [hrow, createGroupRow, membershipRows]
  by_cases hg : m.parentType ≠ .unknown ∧ m.parent ≠ ""
  · rw [if_pos (m.hasGroup_iff.2 hg), if_pos hg, List.append_cons]
    rfl
  · rw [if_neg (mt m.hasGroup_iff.1 hg), if_neg hg]
    rfl

theorem recorded_createMembership (loc : Location) (m : Grouping.Membership) (u : SourceUnit) :
    (createMembership loc m u).2.content.recorded = u.content.recorded ++ [m] := by
  have hown : (membershipRows loc m).filter
      (·.table.name = Schema.ComplexReference.definition.name) = [m.row loc] := by
    unfold membershipRows
    split_ifs
    · rfl
    · rfl
  rw [createMembership_eq, Section.recorded, Section.rowsOf, List.filter_append, hown,
    List.filterMap_append, List.filterMap_cons_some (m.ofSymbol?_row loc), List.filterMap_nil]
  rfl

end SourceUnit

namespace Operation

open Grouping SourceUnit

def IsMembership : Operation → Prop
  | membership .. => True
  | _ => False

/-- The membership that an operation makes. -/
def membership? : Operation → Option Membership
  | membership _ m => some m
  | _ => none

variable {op : Operation} {u : SourceUnit}

theorem recorded_perform (hop : op.IsMembership
      ∨ (op.perform u).content.rowsOf Schema.ComplexReference.definition.name
        = u.content.rowsOf Schema.ComplexReference.definition.name) :
    (op.perform u).content.recorded = u.content.recorded ++ op.membership?.toList := by
  by_cases hi : op.IsMembership
  · cases op with
    | membership loc m => exact recorded_createMembership loc m u
    | _ => exact hi.elim
  · have hnone : op.membership? = none := by
      cases op with
      | membership => exact absurd trivial hi
      | _ => rfl
    rw [hnone, Option.toList_none, List.append_nil, Section.recorded, hop.resolve_left hi,
      Section.recorded]

theorem recorded_performAll {ops : List Operation}
    (hrun : RowsOnlyFrom Schema.ComplexReference.definition.name IsMembership ops u) :
    (performAll ops u).content.recorded = u.content.recorded ++ ops.filterMap membership? := by
  refine hrun.keeps (P := fun calls v => v.content.recorded = u.content.recorded ++ calls)
    (fun h hop => ?_) (List.append_nil _).symm
  rw [recorded_perform hop, h, List.append_assoc]

/-- The memberships of a run are read back from its section: under each parent, in the order of the
calls and with all that was said of them. The first primary child of a kind is that of the first
call that says so. Each call adds its row, and a row of the group unless the parent is unknown. -/
theorem children_performAll {ops : List Operation}
    (hnone : u.content.rowsOf Schema.ComplexReference.definition.name = [])
    (hrun : RowsOnlyFrom Schema.ComplexReference.definition.name IsMembership ops u) :
    let v := View.ofSection (performAll ops u).content
    let calls := ops.filterMap membership?
    (∀ owner, v.children owner = (calls.filter (·.owner = owner)).map (·.member))
      ∧ (∀ owner kind, v.firstPrimary? owner kind
        = (calls.find? fun m => m.owner = owner ∧ m.childType = kind ∧ m.isPrimary).map (·.child))
      ∧ ∀ loc m w, createMembership loc m w = ((), { w with content :=
        { w.content with symbols := w.content.symbols ++
          if m.parentType ≠ .unknown ∧ m.parent ≠ "" then [m.row loc, m.groupRow loc]
          else [m.row loc] } }) := by
  intro v calls
  have hcalls : (performAll ops u).content.recorded = calls := by
    rw [recorded_performAll hrun, Section.recorded, hnone]
    rfl
  have hshows : v.Shows calls := hcalls ▸ View.shows_ofSection _
  exact ⟨hshows.children_eq, hshows.firstPrimary?_eq, createMembership_eq⟩

section SharedNames

/-- An identifier that stands for a parent and for a child, a child that is put under its parent
twice, and a parent that is not known. -/
def sharedNames : List Operation :=
  [membership ⟨"setup.xml", some 1⟩ ⟨.feature, "Main", .component, "Core", none, true⟩,
    reference ⟨"setup.xml", some 2⟩ "Feature" ["Main"],
    membership ⟨"setup.xml", some 3⟩ ⟨.componentGroup, "Core", .feature, "Main", none, false⟩,
    group ⟨"setup.xml", some 4⟩ ⟨.feature, "Main", .component, "Lost", none, true⟩,
    membership ⟨"setup.xml", some 5⟩ ⟨.unknown, "Main", .component, "Other", none, true⟩,
    membership ⟨"setup.xml", some 6⟩ ⟨.feature, "Main", .component, "Core", some "1033", true⟩]

theorem children_performAll_sharedNames :
    let u : SourceUnit := { catalog := Catalog.empty, content := { id := "Setup" } }
    let v := View.ofSection (performAll sharedNames u).content
    v.children (.feature, "Main")
        = [⟨"Core", .component, true, none⟩, ⟨"Core", .component, true, some "1033"⟩]
      ∧ v.children (.componentGroup, "Core") = [⟨"Main", .feature, false, none⟩]
      ∧ v.firstPrimary? (.feature, "Main") .component = some "Core" := by
  intro u v
  have hrun : RowsOnlyFrom Schema.ComplexReference.definition.name IsMembership sharedNames u :=
    ⟨.inl trivial, .inr rfl, .inl trivial, .inr rfl, .inl trivial, .inl trivial, trivial⟩
  obtain ⟨hchildren, hprimary, -⟩ := children_performAll rfl hrun
  exact ⟨hchildren _, hchildren _, hprimary _ _⟩

end SharedNames

end Operation

end InstallerAnalysis
