import InstallerAnalysis.Proofs.SearchOrder
import Mathlib.Dynamics.PeriodicPts.Defs

/-!
# The searches that are reported as a cycle

What is collected step by step is all that can be reached (`mem_reachWithin_iff`), so the group of
a search is what reaches it and is reached from it (`mem_component_iff`). A traversal leaves every
search once (`mem_leavingOrder_iff`, `nodup_leavingOrder`), hence also the last one of each group,
and `cycle` is a group of several searches whenever there is one (`exists_cycle_perm`), sorted by
place (`pairwise_cycle`). If every search has one parent at most, such a group is a ring: from each
search the parents lead once around it (`exists_ring`).
-/

namespace InstallerAnalysis.Search

namespace View

/-! ## Reaching -/

section Reaching

variable {next : String → List String} {members reached newest : List String} {x y : String}

theorem mem_found : y ∈ ((newest.flatMap next).filter (!reached.contains ·)).eraseDups
    ↔ (∃ x ∈ newest, y ∈ next x) ∧ y ∉ reached := by
  simp [List.mem_eraseDups]

theorem reachWithin_nil (next : String → List String) (reached : List String) :
    ∀ steps, reachWithin next steps reached [] = reached
  | 0 => rfl
  | steps + 1 => by
    have hnone : (([] : List String).flatMap next |>.filter (!reached.contains ·)).eraseDups
        = [] := rfl
    rw [reachWithin, hnone, List.append_nil]
    exact reachWithin_nil next reached steps

theorem reachWithin_sound : ∀ (steps : Nat) {reached newest : List String}, newest ⊆ reached →
    ∀ y ∈ reachWithin next steps reached newest,
      ∃ x ∈ reached, Relation.ReflTransGen (fun a b => b ∈ next a) x y
  | 0, reached, newest, _, y, hy => ⟨y, hy, .refl⟩
  | steps + 1, reached, newest, hsub, y, hy => by
    rw [reachWithin] at hy
    obtain ⟨x, hx, hxy⟩ := reachWithin_sound steps (List.subset_append_right _ _) y hy
    rcases List.mem_append.1 hx with hx | hx
    · exact ⟨x, hx, hxy⟩
    · obtain ⟨⟨z, hz, hzx⟩, -⟩ := mem_found.1 hx
      exact ⟨z, hsub hz, .head hzx hxy⟩

theorem subset_reachWithin (next : String → List String) :
    ∀ (steps : Nat) (reached newest : List String),
      reached ⊆ reachWithin next steps reached newest
  | 0, reached, _ => List.Subset.refl reached
  | steps + 1, _, _ =>
    List.Subset.trans (List.subset_append_left _ _) (subset_reachWithin next steps _ _)

/-- With a step for every member that is not reached yet, what is reached has all that is next to
it. Each step but the last finds a member. -/
theorem reachWithin_closed (hnext : ∀ x ∈ members, next x ⊆ members) :
    ∀ (steps : Nat) {reached newest : List String}, reached.Nodup → reached ⊆ members →
      newest ⊆ reached → (∀ x ∈ reached, x ∉ newest → next x ⊆ reached) →
      members.length ≤ reached.length + steps →
      ∀ x ∈ reachWithin next steps reached newest,
        next x ⊆ reachWithin next steps reached newest
  | 0, reached, newest, hn, hsub, _, _, hlen, x, hx => by
    have hperm := (hn.subperm hsub).perm_of_length_le hlen
    exact List.Subset.trans (hnext x (hsub hx)) hperm.symm.subset
  | steps + 1, reached, newest, hn, hsub, hnew, hold, hlen, x, hx => by
    rw [reachWithin] at hx ⊢
    rcases hfound : ((newest.flatMap next).filter (!reached.contains ·)).eraseDups
      with _ | ⟨y, ys⟩
    · simp only [hfound, List.append_nil, reachWithin_nil] at hx ⊢
      by_cases hxn : x ∈ newest
      · intro z hz
        by_contra hzr
        have hmem := mem_found.2 ⟨⟨x, hxn, hz⟩, hzr⟩
        rw [hfound] at hmem
        exact List.not_mem_nil hmem
      · exact hold x hx hxn
    · simp only [hfound] at hx ⊢
      have hmem : ∀ z, z ∈ y :: ys ↔ (∃ x ∈ newest, z ∈ next x) ∧ z ∉ reached := by
        intro z
        rw [← hfound]
        exact mem_found
      refine reachWithin_closed hnext steps ?_ ?_ (List.subset_append_right _ _) ?_ ?_ x hx
      · refine List.nodup_append.2 ⟨hn, hfound ▸ nodup_eraseDups _, ?_⟩
        rintro a ha b hb rfl
        exact ((hmem a).1 hb).2 ha
      · refine List.append_subset.2 ⟨hsub, fun z hz => ?_⟩
        obtain ⟨⟨a, ha, hza⟩, -⟩ := (hmem z).1 hz
        exact hnext a (hsub (hnew ha)) hza
      · intro a ha hafound z hz
        have har : a ∈ reached := (List.mem_append.1 ha).resolve_right hafound
        by_cases hzr : z ∈ reached
        · exact List.mem_append_left _ hzr
        · by_cases han : a ∈ newest
          · exact List.mem_append_right _ ((hmem z).2 ⟨⟨a, han, hz⟩, hzr⟩)
          · exact List.mem_append_left _ (hold a har han hz)
      · rw [List.length_append, List.length_cons]
        omega

theorem mem_reachWithin_iff (hnext : ∀ x ∈ members, next x ⊆ members) (hx : x ∈ members) :
    y ∈ reachWithin next members.length [x] [x]
      ↔ Relation.ReflTransGen (fun a b => b ∈ next a) x y := by
  constructor
  · intro hy
    obtain ⟨x', hx', hxy⟩ := reachWithin_sound _ (List.Subset.refl _) y hy
    rwa [List.mem_singleton.1 hx'] at hxy
  · intro hxy
    have hclosed := reachWithin_closed hnext members.length (List.nodup_singleton x)
      (by simpa using hx) (List.Subset.refl _)
      (fun a ha hna => absurd ha hna) (by omega)
    induction hxy with
    | refl => exact subset_reachWithin next _ _ _ (List.mem_singleton_self x)
    | tail _ hbc ih => exact hclosed _ ih hbc

end Reaching

variable {v : View} {x y : String}

theorem mem_successors : y ∈ v.successors x ↔ v.Edge x y := by
  simp [successors, Edge, and_assoc]

theorem mem_predecessors : y ∈ v.predecessors x ↔ v.Edge y x := by
  simp [predecessors, Edge, and_assoc, and_comm]

theorem Closed.mem_of_edge (hv : v.Closed) (h : v.Edge x y) : x ∈ v.searches ∧ y ∈ v.searches := by
  obtain ⟨r, hr, rfl, rfl⟩ := h
  exact ⟨hv.parent_mem r hr, hv.child_mem r hr⟩

theorem mem_reach_iff (hv : v.Closed) (hx : x ∈ v.searches) :
    y ∈ v.reach x ↔ Relation.ReflTransGen v.Edge x y := by
  have hnext : ∀ a ∈ v.searches, v.successors a ⊆ v.searches :=
    fun a _ b hb => (hv.mem_of_edge (mem_successors.1 hb)).2
  have hedge : (fun a b => b ∈ v.successors a) = v.Edge := by
    funext a b
    exact propext mem_successors
  rw [reach, mem_reachWithin_iff hnext hx, hedge]

theorem mem_reachedBy_iff (hv : v.Closed) (hx : x ∈ v.searches) :
    y ∈ v.reachedBy x ↔ Relation.ReflTransGen v.Edge y x := by
  have hnext : ∀ a ∈ v.searches, v.predecessors a ⊆ v.searches :=
    fun a _ b hb => (hv.mem_of_edge (mem_predecessors.1 hb)).1
  have hedge : (fun a b => b ∈ v.predecessors a) = Function.swap v.Edge := by
    funext a b
    exact propext mem_predecessors
  rw [reachedBy, mem_reachWithin_iff hnext hx, hedge, Relation.reflTransGen_swap]

/-! ## Traversals -/

/-- From one state of a traversal to a later one, searches are met and left. What is left meanwhile
is left once, and was not met before. -/
structure Goes (v : View) (t t' : Traversal) : Prop where
  met : t.met ⊆ t'.met
  leaves : ∀ x ∈ t'.met, x ∈ t.met ∨ x ∈ t'.left
  left : ∃ meanwhile : List String, t'.left = meanwhile ++ t.left ∧ meanwhile.Nodup
    ∧ ∀ x ∈ meanwhile, x ∈ v.searches ∧ x ∉ t.met ∧ x ∈ t'.met

theorem Goes.refl (v : View) (t : Traversal) : v.Goes t t :=
  ⟨List.Subset.refl _, fun _ => .inl, [], rfl, List.nodup_nil, by simp⟩

theorem Goes.left_subset {t t' : Traversal} (h : v.Goes t t') : t.left ⊆ t'.left := by
  obtain ⟨meanwhile, hleft, -⟩ := h.left
  exact hleft ▸ List.subset_append_right _ _

theorem Goes.trans {t t' t'' : Traversal} (h : v.Goes t t') (h' : v.Goes t' t'') :
    v.Goes t t'' := by
  obtain ⟨first, hfirst, hn, hfirstmem⟩ := h.left
  obtain ⟨second, hsecond, hn', hsecondmem⟩ := h'.left
  refine ⟨List.Subset.trans h.met h'.met, fun x hx => ?_, second ++ first, ?_, ?_, ?_⟩
  · rcases h'.leaves x hx with hx | hx
    · exact (h.leaves x hx).imp_right (h'.left_subset ·)
    · exact .inr hx
  · rw [hsecond, hfirst, List.append_assoc]
  · refine List.nodup_append.2 ⟨hn', hn, ?_⟩
    rintro x hx y hy rfl
    exact (hsecondmem x hx).2.1 (hfirstmem x hy).2.2
  · intro x hx
    rcases List.mem_append.1 hx with hx | hx
    · obtain ⟨hmem, hmet, hmet'⟩ := hsecondmem x hx
      exact ⟨hmem, fun hold => hmet (h.met hold), hmet'⟩
    · obtain ⟨hmem, hmet, hmet'⟩ := hfirstmem x hx
      exact ⟨hmem, hmet, h'.met hmet'⟩

theorem goes_foldl {f : Traversal → String → Traversal} :
    ∀ (ids : List String) (t : Traversal), (∀ id ∈ ids, ∀ t, v.Goes t (f t id)) →
      v.Goes t (ids.foldl f t)
  | [], t, _ => .refl v t
  | id :: ids, t, h =>
    (h id List.mem_cons_self t).trans
      (goes_foldl ids _ fun id' hid' => h id' (List.mem_cons_of_mem _ hid'))

/-- A search that was not met before is met, and left after all that the visit goes on to. -/
theorem goes_cons {t t' : Traversal} {id : String} (hid : id ∈ v.searches) (hmet : id ∉ t.met)
    (h : v.Goes { t with met := id :: t.met } t') :
    v.Goes t { t' with left := id :: t'.left } := by
  obtain ⟨meanwhile, hleft, hn, hmem⟩ := h.left
  refine ⟨List.Subset.trans (List.subset_cons_self _ _) h.met, fun x hx => ?_, id :: meanwhile, ?_,
    ?_, ?_⟩
  · rcases h.leaves x hx with hx | hx
    · rcases List.mem_cons.1 hx with rfl | hx
      · exact .inr List.mem_cons_self
      · exact .inl hx
    · exact .inr (List.mem_cons_of_mem _ hx)
  · rw [hleft]
    rfl
  · exact List.nodup_cons.2 ⟨fun hx => (hmem id hx).2.1 List.mem_cons_self, hn⟩
  · refine List.forall_mem_cons.2 ⟨⟨hid, hmet, h.met List.mem_cons_self⟩, fun x hx => ?_⟩
    obtain ⟨hx, hnew, hlast⟩ := hmem x hx
    exact ⟨hx, fun hold => hnew (List.mem_cons_of_mem _ hold), hlast⟩

theorem goes_visit (hv : v.Closed) : ∀ (depth : Nat) (t : Traversal) {id : String},
    id ∈ v.searches → v.Goes t (v.visit depth t id)
  | 0, t, id, _ => .refl v t
  | depth + 1, t, id, hid => by
    rw [visit]
    split_ifs with hmet
    · exact .refl v t
    · refine goes_cons hid (by simpa using hmet) (goes_foldl _ _ fun y hy t => ?_)
      exact goes_visit hv depth t (hv.mem_of_edge (mem_successors.1 hy)).2

theorem mem_met_visit (hv : v.Closed) (depth : Nat) (t : Traversal) {id : String} :
    id ∈ (v.visit (depth + 1) t id).met := by
  rw [visit]
  split_ifs with hmet
  · exact List.contains_iff_mem.1 hmet
  · have hgoes := goes_foldl (v.successors id)
      { t with met := id :: t.met } fun y hy t =>
        goes_visit hv depth t (hv.mem_of_edge (mem_successors.1 hy)).2
    exact hgoes.met List.mem_cons_self

theorem goes_searches (hv : v.Closed) {ids : List String} (hids : ids ⊆ v.searches)
    (t : Traversal) :
    v.Goes t (ids.foldl (v.visit v.searches.length) t) :=
  goes_foldl ids t fun _ hid t => goes_visit hv _ t (hids hid)

theorem nodup_leavingOrder (hv : v.Closed) : v.leavingOrder.Nodup := by
  obtain ⟨meanwhile, hleft, hn, -⟩ := (goes_searches hv (List.Subset.refl _) {}).left
  rw [leavingOrder, List.nodup_reverse, hleft, List.append_nil]
  exact hn

theorem mem_leavingOrder_iff (hv : v.Closed) : x ∈ v.leavingOrder ↔ x ∈ v.searches := by
  have hend := goes_searches hv (List.Subset.refl _) {}
  rw [leavingOrder, List.mem_reverse]
  constructor
  · intro hx
    obtain ⟨meanwhile, hleft, -, hmem⟩ := hend.left
    rw [hleft, List.append_nil] at hx
    exact (hmem x hx).1
  · intro hx
    refine (hend.leaves x ?_).resolve_left List.not_mem_nil
    -- the visit of `x` itself meets it, if it was not met before
    obtain ⟨before, after, hsplit⟩ := List.append_of_mem hx
    have hafter : after ⊆ v.searches := by
      rw [hsplit]
      exact List.Subset.trans (List.subset_cons_self _ _) (List.subset_append_right _ _)
    obtain ⟨depth, hdepth⟩ := Nat.exists_eq_succ_of_ne_zero (List.length_pos_of_mem hx).ne'
    have hgoes := goes_searches hv hafter
    rw [hdepth] at hgoes ⊢
    rw [hsplit, List.foldl_append, List.foldl_cons]
    exact (hgoes _).met (mem_met_visit hv depth _)

/-! ## Groups -/

theorem mem_component_iff (hv : v.Closed) (hx : x ∈ v.searches) : y ∈ v.component x
    ↔ Relation.ReflTransGen v.Edge x y ∧ Relation.ReflTransGen v.Edge y x := by
  simp only [component, List.mem_filter, Bool.and_eq_true, List.contains_iff_mem,
    mem_leavingOrder_iff hv, mem_reach_iff hv hx, mem_reachedBy_iff hv hx, and_iff_right_iff_imp]
  rintro ⟨hxy, -⟩
  rcases hxy.cases_tail with rfl | ⟨z, -, hzy⟩
  · exact hx
  · exact (hv.mem_of_edge hzy).2

theorem component_subset (hv : v.Closed) (x : String) : v.component x ⊆ v.searches :=
  fun _ hy => (mem_leavingOrder_iff hv).1 (List.filter_subset_self _ hy)

theorem nodup_component (hv : v.Closed) (x : String) : (v.component x).Nodup :=
  (nodup_leavingOrder hv).filter _

theorem mem_component_self (hv : v.Closed) (hx : x ∈ v.searches) : x ∈ v.component x :=
  (mem_component_iff hv hx).2 ⟨.refl, .refl⟩

theorem component_eq (hv : v.Closed) (hx : x ∈ v.searches) (hy : y ∈ v.component x) :
    v.component y = v.component x := by
  have hys := component_subset hv x hy
  obtain ⟨hxy, hyx⟩ := (mem_component_iff hv hx).1 hy
  refine List.filter_congr fun z _ => ?_
  have hafter : z ∈ v.reach y ↔ z ∈ v.reach x := by
    rw [mem_reach_iff hv hys, mem_reach_iff hv hx]
    exact ⟨hxy.trans, hyx.trans⟩
  have hbefore : z ∈ v.reachedBy y ↔ z ∈ v.reachedBy x := by
    rw [mem_reachedBy_iff hv hys, mem_reachedBy_iff hv hx]
    exact ⟨fun h => h.trans hyx, fun h => h.trans hxy⟩
  rw [Bool.eq_iff_iff]
  simp only [Bool.and_eq_true, List.contains_iff_mem, hafter, hbefore]

theorem firstGroup_spec (hv : v.Closed) : ∀ (ids : List String), ids ⊆ v.searches →
    (∃ x ∈ ids, 1 < (v.component x).length) →
    ∃ x ∈ ids, v.firstGroup ids = v.component x ∧ 1 < (v.component x).length
  | [], _, ⟨_, hx, _⟩ => absurd hx List.not_mem_nil
  | id :: later, hsub, ⟨x, hx, hlen⟩ => by
    have hid := hsub List.mem_cons_self
    rw [firstGroup]
    split_ifs with hlast
    · rw [Bool.and_eq_true, decide_eq_true_iff] at hlast
      exact ⟨id, List.mem_cons_self, rfl, hlast.1⟩
    · have hexists : ∃ y ∈ later, 1 < (v.component y).length := by
        rcases List.mem_cons.1 hx with rfl | hx
        · -- a search of the same group is left later
          simp only [Bool.and_eq_true, decide_eq_true_iff, not_and, hlen, true_imp_iff,
            List.all_eq_true, Bool.not_eq_true', not_forall, Bool.not_eq_false,
            List.contains_iff_mem] at hlast
          obtain ⟨y, hy, hgroup⟩ := hlast
          exact ⟨y, hy, by rwa [component_eq hv hid hgroup]⟩
        · exact ⟨x, hx, hlen⟩
      obtain ⟨y, hy, hspec⟩ :=
        firstGroup_spec hv later (List.Subset.trans (List.subset_cons_self _ _) hsub) hexists
      exact ⟨y, List.mem_cons_of_mem _ hy, hspec⟩

/-- Where several searches reach each other, the cycle is such a group, sorted. -/
theorem exists_cycle_perm (hv : v.Closed) (h : ∃ x ∈ v.searches, 1 < (v.component x).length) :
    ∃ x ∈ v.searches, v.cycle.Perm (v.component x) ∧ 1 < (v.component x).length := by
  obtain ⟨x, hx, hlen⟩ := h
  obtain ⟨y, hy, hgroup, hmany⟩ := firstGroup_spec hv v.leavingOrder
    (fun z hz => (mem_leavingOrder_iff hv).1 hz) ⟨x, (mem_leavingOrder_iff hv).2 hx, hlen⟩
  refine ⟨y, (mem_leavingOrder_iff hv).1 hy, ?_, hmany⟩
  rw [cycle, hgroup]
  exact List.mergeSort_perm _ _

theorem pairwise_cycle (v : View) :
    v.cycle.Pairwise fun x y => v.searches.idxOf x ≤ v.searches.idxOf y := by
  have hsorted : v.cycle.Pairwise fun x y =>
      decide (v.searches.idxOf x ≤ v.searches.idxOf y) :=
    List.pairwise_mergeSort (fun x y z => by simpa using le_trans)
      (fun x y => by simpa using le_total _ _) _
  exact hsorted.imp of_decide_eq_true

/-! ## Rings -/

theorem exists_mem_ne {ids : List String} (hn : ids.Nodup) (hlen : 1 < ids.length) (y : String) :
    ∃ z ∈ ids, z ≠ y := by
  rcases ids with _ | ⟨a, _ | ⟨b, rest⟩⟩
  · simp at hlen
  · simp at hlen
  · have hab : a ≠ b := by
      rintro rfl
      simp at hn
    by_cases ha : a = y
    · exact ⟨b, by simp, ha ▸ hab.symm⟩
    · exact ⟨a, by simp, ha⟩

/-- Unless a search is related to itself, searches that get stuck are in a group of several. -/
theorem exists_group_of_stuck (hv : v.Closed) (hloop : ∀ x, ¬ v.Edge x x)
    (h : v.runnable.length ≠ v.searches.length) :
    ∃ x ∈ v.searches, 1 < (v.component x).length := by
  have hcycle : ∃ x, Relation.TransGen v.Edge x x := by
    by_contra hno
    push Not at hno
    exact h (complete_of_acyclic hv hno)
  obtain ⟨x, hx⟩ := hcycle
  obtain ⟨y, hxy, hyx⟩ := Relation.TransGen.head'_iff.1 hx
  have hxs := (hv.mem_of_edge hxy).1
  have hne : x ≠ y := by
    rintro rfl
    exact hloop x hxy
  exact ⟨x, hxs, one_lt_length_of_ne (mem_component_self hv hxs)
    ((mem_component_iff hv hxs).2 ⟨.single hxy, hyx⟩) hne⟩

theorem exists_edge_component (hv : v.Closed) (hx : x ∈ v.searches)
    (hlen : 1 < (v.component x).length) (hy : y ∈ v.component x) :
    ∃ z ∈ v.component x, v.Edge z y := by
  obtain ⟨other, hother, hne⟩ := exists_mem_ne (nodup_component hv x) hlen y
  obtain ⟨hxo, hox⟩ := (mem_component_iff hv hx).1 hother
  obtain ⟨hxy, hyx⟩ := (mem_component_iff hv hx).1 hy
  rcases (hox.trans hxy).cases_tail with heq | ⟨z, hoz, hzy⟩
  · exact absurd heq.symm hne
  · exact ⟨z, (mem_component_iff hv hx).2 ⟨hxo.trans hoz, .head hzy hyx⟩, hzy⟩

/-- The first parent of a search, or the search itself if it has none. -/
def firstParent (v : View) (id : String) : String :=
  ((v.parents id).head?.map (·.1)).getD id

section SingleParents

variable (hone : ∀ id, (v.parents id).length ≤ 1)
include hone

theorem parents_of_edge (h : v.Edge y x) : ∃ flags, v.parents x = [(y, flags)] := by
  obtain ⟨r, hr, rfl, rfl⟩ := h
  have hmem : (r.parent, r.flags) ∈ v.parents r.child :=
    List.mem_map.2 ⟨r, List.mem_filter.2 ⟨hr, by simp⟩, rfl⟩
  have hlen := hone r.child
  rcases hp : v.parents r.child with _ | ⟨q, _ | ⟨q', qs⟩⟩ <;> rw [hp] at hmem hlen
  · exact absurd hmem List.not_mem_nil
  · exact ⟨r.flags, by rw [List.mem_singleton.1 hmem]⟩
  · simp at hlen

theorem firstParent_of_edge (h : v.Edge y x) : v.firstParent x = y := by
  obtain ⟨flags, hp⟩ := parents_of_edge hone h
  rw [firstParent, hp]
  rfl

/-- What reaches a search is found by going from parent to parent. -/
theorem exists_iterate_of_reaches (h : Relation.ReflTransGen v.Edge y x) :
    ∃ n, v.firstParent^[n] x = y := by
  induction h with
  | refl => exact ⟨0, rfl⟩
  | tail _ hbc ih =>
    obtain ⟨n, hn⟩ := ih
    refine ⟨n + 1, ?_⟩
    rw [Function.iterate_succ_apply, firstParent_of_edge hone hbc, hn]

theorem firstParent_mem_component (hv : v.Closed) (hx : x ∈ v.searches)
    (hlen : 1 < (v.component x).length) (hy : y ∈ v.component x) :
    v.firstParent y ∈ v.component x
      ∧ ∃ flags, v.parents y = [(v.firstParent y, flags)] := by
  obtain ⟨z, hz, hzy⟩ := exists_edge_component hv hx hlen hy
  rw [firstParent_of_edge hone hzy]
  exact ⟨hz, parents_of_edge hone hzy⟩

theorem exists_ring (hv : v.Closed) (hx : x ∈ v.searches) (hlen : 1 < (v.component x).length) :
    ∃ ring : Cycle String, ring.Nodup ∧ (∀ y, y ∈ ring ↔ y ∈ v.component x)
      ∧ ring.Chain fun later earlier => ∃ flags, v.parents later = [(earlier, flags)] := by
  have hstep := fun y => firstParent_mem_component (y := y) hone hv hx hlen
  have hmem : ∀ n, v.firstParent^[n] x ∈ v.component x := by
    intro n
    induction n with
    | zero => exact mem_component_self hv hx
    | succ n ih =>
      rw [Function.iterate_succ_apply']
      exact (hstep _ ih).1
  have hperiodic : x ∈ Function.periodicPts v.firstParent := by
    -- the parent of `x` is reached from `x`, so that going on from it leads back to `x`
    obtain ⟨n, hn⟩ := exists_iterate_of_reaches hone ((mem_component_iff hv hx).1 (hmem 1)).1
    exact Function.mk_mem_periodicPts n.succ_pos hn
  refine ⟨Function.periodicOrbit v.firstParent x, Function.nodup_periodicOrbit, fun y => ?_, ?_⟩
  · rw [Function.mem_periodicOrbit_iff hperiodic]
    constructor
    · rintro ⟨n, rfl⟩
      exact hmem n
    · intro hy
      exact exists_iterate_of_reaches hone ((mem_component_iff hv hx).1 hy).2
  · rw [Function.periodicOrbit_chain' _ hperiodic]
    intro n
    rw [Function.iterate_succ_apply']
    exact (hstep _ (hmem n)).2

/-- If every search has one parent at most and none is its own, the searches that are reported
instead of an order are several, and their parents lead around a ring of them. -/
theorem ring_of_order_error (hv : v.Closed) (hloop : ∀ x, ¬ v.Edge x x) {ids : List String}
    (h : v.order = .error ids) : 2 ≤ ids.length ∧ ids.Nodup
      ∧ ∃ ring : Cycle String, ring.Nodup ∧ (∀ id, id ∈ ring ↔ id ∈ ids)
        ∧ ring.Chain fun later earlier => ∃ flags, v.parents later = [(earlier, flags)] := by
  rw [order] at h
  split_ifs at h with hcomplete
  cases h
  obtain ⟨x, hx, hcycle, hlen⟩ := exists_cycle_perm hv (exists_group_of_stuck hv hloop hcomplete)
  obtain ⟨ring, hn, hring, hchain⟩ := exists_ring hone hv hx hlen
  exact ⟨hcycle.length_eq ▸ hlen, hcycle.nodup_iff.2 (nodup_component hv x), ring, hn,
    fun id => (hring id).trans hcycle.mem_iff.symm, hchain⟩

end SingleParents

end View

end InstallerAnalysis.Search
