import InstallerAnalysis.Proofs.Operations
import InstallerAnalysis.Proofs.SearchCycles
import InstallerAnalysis.Proofs.SearchPriority

/-!
# Which searches are reported when there is no order

Searches have no order exactly if some search comes after itself, but a group is reported only if it
has several searches. So the report names a whole group with a cycle in it whenever two searches
come after each other (`namesCycle_cycle`), and nothing at all if the cycles are those of searches
that are related to themselves (`cycle_eq_nil`).
-/

namespace InstallerAnalysis.Search

/-- Each of the two searches is the other one or comes after it, directly or not. -/
def Mutual (c : Section) (x y : String) : Prop :=
  Relation.ReflTransGen (Ordered c) x y ∧ Relation.ReflTransGen (Ordered c) y x

/-- Some searches, given once each and in the order in which they came up, are all those that come
after each other, with a cycle among them. -/
structure NamesCycle (c : Section) (ids : List String) : Prop where
  ne_nil : ids ≠ []
  group : ∃ x, Relation.TransGen (Ordered c) x x ∧ ∀ y, y ∈ ids ↔ Mutual c x y
  entered : ids.Pairwise fun x y => entry c x < entry c y

variable {c : Section} {x y : String} {ids : List String}

theorem Mutual.transGen_self (h : Mutual c x y) (hne : x ≠ y) :
    Relation.TransGen (Ordered c) x x := by
  rcases Relation.reflTransGen_iff_eq_or_transGen.1 h.1 with heq | hxy
  · exact absurd heq.symm hne
  · exact hxy.trans_left h.2

theorem mem_component_iff_mutual (hx : x ∈ (View.ofSection c).searches) :
    y ∈ (View.ofSection c).component x ↔ Mutual c x y := by
  rw [View.mem_component_iff (View.ofSection_closed c) hx, edge_ofSection]
  rfl

theorem Mutual.mem_searches (h : Mutual c x y) (hne : x ≠ y) :
    x ∈ (View.ofSection c).searches := by
  obtain ⟨z, hxz, -⟩ := Relation.TransGen.head'_iff.1 (h.transGen_self hne)
  exact View.mem_ofSection_searches.2 (.inr ⟨z, .inl hxz⟩)

theorem one_lt_length_component_iff (hx : x ∈ (View.ofSection c).searches) :
    1 < ((View.ofSection c).component x).length ↔ ∃ y, y ≠ x ∧ Mutual c x y := by
  have hv := View.ofSection_closed c
  constructor
  · intro hlen
    obtain ⟨y, hy, hne⟩ := View.exists_mem_ne (View.nodup_component hv x) hlen x
    exact ⟨y, hne, (mem_component_iff_mutual hx).1 hy⟩
  · rintro ⟨y, hne, hxy⟩
    exact one_lt_length_of_ne ((mem_component_iff_mutual hx).2 hxy)
      (View.mem_component_self hv hx) hne

theorem firstGroup_eq_nil {v : View} : ∀ {ids : List String},
    (∀ x ∈ ids, ¬ 1 < (v.component x).length) → v.firstGroup ids = []
  | [], _ => rfl
  | id :: later, h => by
    have hid := h id List.mem_cons_self
    rw [View.firstGroup, if_neg (by simp [hid])]
    exact firstGroup_eq_nil fun x hx => h x (List.mem_cons_of_mem _ hx)

theorem cycle_eq_nil (h : ∀ x y, Mutual c x y → x = y) : (View.ofSection c).cycle = [] := by
  have hnone : (View.ofSection c).firstGroup (View.ofSection c).leavingOrder = [] := by
    refine firstGroup_eq_nil fun x hx hlen => ?_
    have hxs := (View.mem_leavingOrder_iff (View.ofSection_closed c)).1 hx
    obtain ⟨y, hne, hxy⟩ := (one_lt_length_component_iff hxs).1 hlen
    exact hne (h x y hxy).symm
  rw [View.cycle, hnone, List.mergeSort_nil]

/-- What is sorted by place stands in the order in which it came up. -/
theorem pairwise_entry_cycle (hn : (View.ofSection c).cycle.Nodup)
    (hsub : (View.ofSection c).cycle ⊆ (View.ofSection c).searches) :
    (View.ofSection c).cycle.Pairwise fun x y => entry c x < entry c y := by
  have hsorted := (View.pairwise_cycle (View.ofSection c)).and hn
  refine hsorted.imp_of_mem fun {x y} hx hy hxy => entry_lt_of_idxOf_lt (hsub hy) ?_
  refine lt_of_le_of_ne hxy.1 fun heq => hxy.2 ((List.idxOf_inj (hsub hx)).1 heq)

theorem namesCycle_cycle (hne : x ≠ y) (h : Mutual c x y) :
    NamesCycle c (View.ofSection c).cycle := by
  have hx := h.mem_searches hne
  have hv := View.ofSection_closed c
  obtain ⟨z, hz, hcycle, hlen⟩ :=
    View.exists_cycle_perm hv ⟨x, hx, (one_lt_length_component_iff hx).2 ⟨y, hne.symm, h⟩⟩
  obtain ⟨z', hne', hz'⟩ := (one_lt_length_component_iff hz).1 hlen
  refine ⟨List.ne_nil_of_length_pos (hcycle.length_eq ▸ Nat.zero_lt_of_lt hlen),
    ⟨z, hz'.transGen_self hne'.symm, fun y => hcycle.mem_iff.trans (mem_component_iff_mutual hz)⟩,
    pairwise_entry_cycle (hcycle.nodup_iff.2 (View.nodup_component hv z)) ?_⟩
  exact List.Subset.trans hcycle.subset (View.component_subset hv z)

/-- What is reported when there is no order names a cycle exactly if two searches come after each
other. If no two do, it names nothing, and some search is related to itself. -/
theorem namesCycle_iff_of_order_error (h : (View.ofSection c).order = .error ids) :
    (NamesCycle c ids ↔ ∃ x y, x ≠ y ∧ Mutual c x y)
      ∧ ((∀ x y, Mutual c x y → x = y) → ids = [] ∧ ∃ x, Ordered c x x) := by
  rw [View.order] at h
  split_ifs at h with hcomplete
  cases h
  refine ⟨⟨fun hnames => ?_, ?_⟩, fun hnone => ⟨cycle_eq_nil hnone, ?_⟩⟩
  · by_contra hnone
    push Not at hnone
    refine hnames.ne_nil (cycle_eq_nil fun x y hxy => ?_)
    by_contra hne
    exact hnone x y hne hxy
  · rintro ⟨x, y, hne, hxy⟩
    exact namesCycle_cycle hne hxy
  · -- the searches that get stuck have a cycle, and its first step leads back to its start
    obtain ⟨x, hx⟩ : ∃ x, Relation.TransGen (Ordered c) x x := by
      by_contra hacyclic
      push Not at hacyclic
      rw [← edge_ofSection] at hacyclic
      exact hcomplete (View.complete_of_acyclic (View.ofSection_closed c) hacyclic)
    obtain ⟨y, hxy, hyx⟩ := Relation.TransGen.head'_iff.1 hx
    obtain rfl := hnone x y ⟨.single hxy, hyx⟩
    exact ⟨x, hxy⟩

section Knotted

/-- A search that is related to itself, and one that waits for two others that come after each
other. -/
def knotted : Section where
  id := "Main"
  symbols := [afterRow "Alone" "Alone", searchRow "Last", afterRow "Last" "Tail",
    afterRow "Tail" "Head", afterRow "Head" "Tail"]

theorem namesCycle_iff_of_order_error_knotted :
    (View.ofSection knotted).order = .error ["Tail", "Head"]
      ∧ NamesCycle knotted ["Tail", "Head"] := by
  have hsearches : (View.ofSection knotted).searches = ["Last", "Alone", "Tail", "Head"] := by
    decide
  have hgroup : (View.ofSection knotted).firstGroup (View.ofSection knotted).leavingOrder
      = ["Head", "Tail"] := by decide
  have herror : (View.ofSection knotted).order = .error ["Tail", "Head"] := by
    rw [View.order, if_neg (by decide), View.cycle, hgroup, hsearches]
    cbv
  have hedge : Ordered knotted "Head" "Tail" ∧ Ordered knotted "Tail" "Head" := by
    rw [← edge_ofSection]
    exact ⟨⟨⟨"Head", "Tail", .none⟩, by decide, rfl, rfl⟩,
      ⟨"Tail", "Head", .none⟩, by decide, rfl, rfl⟩
  refine ⟨herror, (namesCycle_iff_of_order_error herror).1.2 ⟨"Head", "Tail", by decide, ?_⟩⟩
  exact ⟨.single hedge.1, .single hedge.2⟩

/-- The section of a source that orders a search after itself by writing the row directly. -/
def selfRelated : Section :=
  (Operation.performAll [.symbol ⟨"setup.xml", some 1⟩ (.named "WixSearchRelation")
      (some (Identifier.ofId "Alone")) [("ParentSearchRef", .string "Alone")]]
    { catalog := Catalog.builtin, content := { id := "Main" } }).content

/-- The one cycle there is goes unnamed. -/
theorem not_namesCycle_selfRelated : Ordered selfRelated "Alone" "Alone"
    ∧ (View.ofSection selfRelated).order = .error [] ∧ ¬ NamesCycle selfRelated [] := by
  have hgroup : (View.ofSection selfRelated).firstGroup (View.ofSection selfRelated).leavingOrder
      = [] := by decide +kernel
  refine ⟨?_, ?_, fun hnames => hnames.ne_nil rfl⟩
  · rw [← edge_ofSection]
    exact ⟨⟨"Alone", "Alone", .none⟩, by decide +kernel, rfl, rfl⟩
  · rw [View.order, if_neg (by decide +kernel), View.cycle, hgroup, List.mergeSort_nil]

end Knotted

end InstallerAnalysis.Search
