import InstallerAnalysis.Proofs.MembershipView
import InstallerAnalysis.Proofs.Occurrences
import Mathlib.Data.List.Nodup

/-!
# Parents with several primary children

The view has a conflict where several memberships mark a child of one kind as primary under one
parent (`Shows.mem_conflicts_iff`), and has it once, since every parent is there once
(`nodup_keys_conflicts`). It counts the memberships and not the children, so a child that is marked
twice is in conflict with itself (`conflicts_markedTwice`).
-/

namespace InstallerAnalysis

namespace Grouping

/-- The children of a kind that memberships mark as primary under a parent, in their order. -/
def marked (ms : List Membership) (owner : ParentType × String) (kind : ChildType) : List String :=
  (ms.filter fun m => m.owner = owner ∧ m.childType = kind ∧ m.isPrimary).map (·.child)

/-- The parent and the kind of the children that are in conflict. -/
def Conflict.key (x : Conflict) : (ParentType × String) × ChildType :=
  ((x.parentType, x.parent), x.childType)

namespace View

variable {v : View} {ms : List Membership} {owner : ParentType × String}

/-! ## Every parent is there once -/

theorem nodup_intern (h : v.nodes.Nodup) (n : Node) : (v.intern n).2.nodes.Nodup := by
  unfold intern
  split
  · exact h
  · rename_i hnew
    rw [List.idxOf?_eq_none_iff] at hnew
    exact List.Nodup.append h (List.nodup_singleton n) (List.disjoint_singleton.2 hnew)

theorem nodup_connect (h : v.nodes.Nodup) (m : Membership) : (v.connect m).nodes.Nodup :=
  nodup_intern (nodup_intern h _) _

theorem nodup_foldl_connect : ∀ (ms : List Membership) {v : View}, v.nodes.Nodup →
    (ms.foldl connect v).nodes.Nodup
  | [], _, h => h
  | m :: ms, _, h => nodup_foldl_connect ms (nodup_connect h m)

theorem mem_owners_iff : owner ∈ v.owners ↔ Node.parent owner.1 owner.2 ∈ v.nodes := by
  simp only [owners, List.mem_filterMap]
  constructor
  · rintro ⟨node, hnode, hsome⟩
    cases node with
    | parent kind id =>
      cases hsome
      exact hnode
    | child => cases hsome
  · exact fun h => ⟨_, h, rfl⟩

theorem nodup_owners (h : v.nodes.Nodup) : v.owners.Nodup := by
  refine List.Nodup.filterMap ?_ h
  rintro (⟨kind, id⟩ | _) (⟨kind', id'⟩ | _) owner hn hn'
  · cases hn
    cases hn'
    rfl
  · cases hn'
  · cases hn
  · cases hn

/-! ## Conflicts -/

theorem mem_conflictsOf_iff {x : Conflict} : x ∈ v.conflictsOf owner
    ↔ (x.parentType, x.parent) = owner ∧ 1 < x.children.length
      ∧ x.children = ((v.primaries owner).filter (·.childType = x.childType)).map (·.child) := by
  simp only [conflictsOf, List.mem_filter, List.mem_map, List.mem_eraseDups, decide_eq_true_eq]
  constructor
  · rintro ⟨⟨kind, -, rfl⟩, hlen⟩
    exact ⟨rfl, hlen, rfl⟩
  · rintro ⟨rfl, hlen, hchildren⟩
    -- the kind is among those of the primary children, since there is one of it
    obtain ⟨child, hchild⟩ := List.exists_mem_of_length_pos (Nat.zero_lt_of_lt hlen)
    rw [hchildren] at hchild
    obtain ⟨m, hm, -⟩ := List.mem_map.1 hchild
    rw [List.mem_filter, decide_eq_true_eq] at hm
    exact ⟨⟨x.childType, ⟨m, hm⟩, by rw [← hchildren]⟩, hlen⟩

theorem Shows.marked_eq (h : v.Shows ms) (owner : ParentType × String) (kind : ChildType) :
    ((v.primaries owner).filter (·.childType = kind)).map (·.child) = marked ms owner kind := by
  rw [primaries, h.children_eq, marked]
  simp only [List.filter_map, List.map_map, List.filter_filter]
  refine congrArg _ (List.filter_congr fun m _ => ?_)
  simp [Membership.member, Bool.and_comm, Bool.and_left_comm, Bool.and_assoc]

theorem Shows.mem_conflicts_iff (h : v.Shows ms) {x : Conflict} : x ∈ v.conflicts
    ↔ 1 < x.children.length ∧ x.children = marked ms (x.parentType, x.parent) x.childType := by
  simp only [conflicts, List.mem_flatMap, mem_conflictsOf_iff, h.marked_eq]
  constructor
  · rintro ⟨owner, -, rfl, hx⟩
    exact hx
  · rintro ⟨hlen, hchildren⟩
    refine ⟨_, ?_, rfl, hlen, hchildren⟩
    -- whoever marks a child is a parent
    obtain ⟨child, hchild⟩ := List.exists_mem_of_length_pos (Nat.zero_lt_of_lt hlen)
    rw [hchildren] at hchild
    obtain ⟨m, hm, -⟩ := List.mem_map.1 hchild
    rw [List.mem_filter, decide_eq_true_eq] at hm
    rw [mem_owners_iff, ← (m.ownerNode_eq_iff _).2 hm.2.1]
    exact h.owner_mem m hm.1

theorem nodup_keys_conflictsOf (v : View) (owner : ParentType × String) :
    ((v.conflictsOf owner).map Conflict.key).Nodup := by
  have hkinds := nodup_eraseDups ((v.primaries owner).map (·.childType))
  refine List.Nodup.sublist (List.filter_sublist.map Conflict.key) ?_
  rw [List.map_map]
  exact hkinds.map fun kind kind' heq => congrArg Prod.snd heq

theorem nodup_keys_conflicts (h : v.nodes.Nodup) : (v.conflicts.map Conflict.key).Nodup := by
  rw [conflicts, List.map_flatMap, List.nodup_flatMap]
  refine ⟨fun owner _ => v.nodup_keys_conflictsOf owner, (nodup_owners h).imp fun {o o'} hne => ?_⟩
  show List.Disjoint ((v.conflictsOf o).map Conflict.key) ((v.conflictsOf o').map Conflict.key)
  simp only [List.disjoint_left, List.mem_map, mem_conflictsOf_iff]
  rintro _ ⟨x, ⟨rfl, -⟩, rfl⟩ ⟨x', ⟨rfl, -⟩, hkey⟩
  exact hne (congrArg Prod.fst hkey).symm

/-- For each parent and kind of children there is at most one conflict. Its children are those of the
kind that the rows of the section mark as primary under the parent, in the order of the rows, if
there are several. So it is there if two different children are marked, but also if a single one is
marked repeatedly. -/
theorem conflicts_ofSection (c : Section) :
    ((ofSection c).conflicts.map Conflict.key).Nodup
      ∧ (∀ x, x ∈ (ofSection c).conflicts ↔ 1 < x.children.length
        ∧ x.children = marked c.recorded (x.parentType, x.parent) x.childType)
      ∧ ∀ owner kind, (owner, kind) ∈ (ofSection c).conflicts.map Conflict.key
        ↔ (∃ child ∈ marked c.recorded owner kind, ∃ other ∈ marked c.recorded owner kind,
            child ≠ other)
          ∨ ∃ child n, marked c.recorded owner kind = List.replicate (n + 2) child := by
  have hmem := fun x => (shows_ofSection c).mem_conflicts_iff (x := x)
  refine ⟨nodup_keys_conflicts (nodup_foldl_connect c.recorded List.nodup_nil), hmem, ?_⟩
  intro owner kind
  rw [← one_lt_length_iff, List.mem_map]
  constructor
  · rintro ⟨x, hx, hkey⟩
    cases hkey
    obtain ⟨hlen, hchildren⟩ := (hmem x).1 hx
    exact hchildren ▸ hlen
  · intro hlen
    exact ⟨⟨owner.1, owner.2, kind, marked c.recorded owner kind⟩, (hmem _).2 ⟨hlen, rfl⟩, rfl⟩

end View

end Grouping

namespace Operation

open Grouping

/-- The same child is made the primary one of its parent twice. -/
def markedTwice : List Operation :=
  [membership ⟨"setup.xml", some 1⟩ ⟨.feature, "Main", .component, "Core", none, true⟩,
    membership ⟨"setup.xml", some 2⟩ ⟨.feature, "Main", .component, "Core", none, true⟩]

/-- A child is in conflict with itself. -/
theorem conflicts_markedTwice :
    let u : SourceUnit := { catalog := Catalog.empty, content := { id := "Setup" } }
    let c := (performAll markedTwice u).content
    ((Grouping.ParentType.feature, "Main"), ChildType.component)
        ∈ (View.ofSection c).conflicts.map Conflict.key
      ∧ ∀ child ∈ marked c.recorded (.feature, "Main") .component, child = "Core" := by
  decide +kernel

end Operation

end InstallerAnalysis
